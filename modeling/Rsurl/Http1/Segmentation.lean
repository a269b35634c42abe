import Rsurl.Http1.Exchange
import Rsurl.Library.Resume

/-!
# Segmentation independence

Where the bytes of a response are cut into reads makes no difference. A turn that stopped for want of
input is resumed by the input to come, as long as the size limits, which look at what is buffered,
do not cut off a line that would have ended later.
-/

namespace Rsurl.Http1.ClientExchange

open Library Library.Loop Library.Resume
open Library.Loop (Turn)
open Http2 (maxBodyBytes)

/-! ## More input behind a state -/

@[simp] theorem push_rx (x : ClientExchange) (w : Bytes) : (x.push w).rx = x.rx ++ w := rfl
@[simp] theorem push_state (x : ClientExchange) (w : Bytes) : (x.push w).state = x.state := rfl
@[simp] theorem push_interim (x : ClientExchange) (w : Bytes) :
    (x.push w).interim = x.interim := rfl
@[simp] theorem push_method (x : ClientExchange) (w : Bytes) : (x.push w).method = x.method := rfl
@[simp] theorem push_streaming (x : ClientExchange) (w : Bytes) :
    (x.push w).streaming = x.streaming := rfl
@[simp] theorem push_bodyTotal (x : ClientExchange) (w : Bytes) :
    (x.push w).bodyTotal = x.bodyTotal := rfl

theorem push_nil (x : ClientExchange) : x.push [] = x := by simp [push]

theorem push_append (x : ClientExchange) (v w : Bytes) : x.push (v ++ w) = (x.push v).push w := by
  simp [push]

theorem emitHead_push (x : ClientExchange) (w : Bytes) : (x.push w).emitHead = x.emitHead.push w := by
  unfold emitHead push
  split
  · rfl
  · simp only
    split <;> rfl

theorem emitBody_push (x : ClientExchange) (w : Bytes) : (x.push w).emitBody = x.emitBody.push w := by
  unfold emitBody push
  simp only
  split <;> rfl

theorem finish_push (x : ClientExchange) (w : Bytes) : (x.push w).finish = x.finish.push w := by
  unfold finish emitStreaming
  rw [emitHead_push, emitBody_push]
  by_cases h : x.streaming
  · simp [push, h]
  · cases hh : x.head <;> simp [push, h, hh]

theorem enter_push (x : ClientExchange) (mode : BodyMode) (w : Bytes) :
    (x.push w).enter mode = (x.enter mode).push w := by
  unfold enter
  split
  · exact finish_push x w
  · exact finish_push x w
  · rfl
  · rfl
  · rfl

/-- A block that ends within the first piece ends there without the second. -/
theorem findHeaderEnd_of_append {buf more : Bytes} {n : Nat}
    (h : findHeaderEnd (buf ++ more) = some n) (hn : n ≤ buf.length) :
    findHeaderEnd buf = some n := by
  cases hb : findHeaderEnd buf with
  | some m =>
    have := findHeaderEnd_append hb more
    exact this.symm.trans h
  | none =>
    exfalso
    induction buf generalizing n with
    | nil =>
      have := findHeaderEnd_bounds h
      simp only [List.length_nil] at hn
      omega
    | cons b rest ih =>
      have hshort {t : Bytes} (hp : t.isPrefixOf (b :: rest ++ more) = true)
          (hlen : t.length ≤ (b :: rest).length) : t.isPrefixOf (b :: rest) = true :=
        List.isPrefixOf_iff_prefix.mpr (List.prefix_of_prefix_length_le
          (List.isPrefixOf_iff_prefix.mp hp) (List.prefix_append _ _) hlen)
      rw [List.cons_append, findHeaderEnd, ← List.cons_append] at h
      rw [findHeaderEnd] at hb
      split at h <;> rename_i hp
      · cases h
        simp [hshort hp hn] at hb
      · split at h <;> rename_i hp'
        · cases h
          rw [if_pos (hshort hp' hn)] at hb
          split at hb <;> cases hb
        · obtain ⟨m, hm, rfl⟩ := Option.map_eq_some_iff.mp h
          refine ih hm (by simpa using hn) ?_
          split at hb
          · cases hb
          · split at hb
            · cases hb
            · exact Option.map_eq_none_iff.mp hb

theorem Opens.state {x y : ClientExchange} {cs cs' : ChunkState} (h : Opens x cs y cs')
    (hs : x.state = .chunked cs) : y.state = .chunked cs' := by
  cases h with
  | already => exact hs
  | crlf => rfl

/-- The line end may be taken in a turn before or in the turn itself. -/
theorem Opens.turn_eq {x y : ClientExchange} {cs cs' : ChunkState} (ho : Opens x cs y cs')
    (hs : x.state = .chunked cs) : x.turn = y.turn := by
  have hy : y.advanceChunked cs' = y.decodeChunk cs' := (Opens.already ho.pending).advance
  simp [turn, hs, ho.state hs, ho.advance, hy]

theorem Chunk.eq_of_wait {x z : ClientExchange} {cs : ChunkState}
    (h : Chunk x cs (.done (.ok (false, z)))) : z = x := by
  cases h <;> rfl

theorem Opens.push {x y : ClientExchange} {cs cs' : ChunkState} (h : Opens x cs y cs')
    (w : Bytes) : Opens (x.push w) cs (y.push w) cs' := by
  cases h with
  | already h => exact .already h
  | crlf h hlen hrx =>
    have htake : (x.push w).rx.take 2 = [0x0d, 0x0a] := by
      rw [push_rx, List.take_append_of_le_length hlen, hrx]
    have := Opens.crlf (x := x.push w) h (by simp; omega) htake
    rwa [push_rx, List.drop_append_of_le_length hlen] at this

/-- The next line, or block, has room in the buffer if it ends in what there is. -/
def LineFits (x : ClientExchange) : Prop :=
  match x.state with
  | .head => ∀ n, findHeaderEnd x.rx = some n → n ≤ maxHeaderBytes
  | .chunked cs => cs.inTrailers = true ∨ cs.remaining = 0 →
      ∀ nl, (if cs.crlfPending then x.rx.drop 2 else x.rx).findIdx? (· == 0x0a) = some nl →
        nl + 1 ≤ maxHeaderBytes
  | _ => True

/-- The states that decoding goes through. -/
def Reaches : ClientExchange → ClientExchange → Prop :=
  Relation.ReflTransGen fun x y => x.turn = .next y

/-- Every head block, chunk-size line and trailer line that is decoded from here on, as long as it
ends, is at most `maxHeaderBytes` long. -/
def Fits (x : ClientExchange) : Prop := ∀ y, x.Reaches y → y.LineFits

theorem Fits.line {x : ClientExchange} (h : x.Fits) : x.LineFits := h x .refl

theorem Fits.next {x y : ClientExchange} (h : x.Fits) (hy : x.turn = .next y) : y.Fits :=
  fun z hz => h z (.head hy hz)

theorem advance_next {x y : ClientExchange} (hy : x.turn = .next y) : x.advance = y.advance :=
  run_next hy

/-- States whose turns are the same go on in the same way. -/
theorem advance_of_turn_eq {x y : ClientExchange} (h : x.turn = y.turn) : x.advance = y.advance := by
  cases ht : y.turn with
  | done a =>
    have hx : x.advance = a := run_done (h.trans ht)
    have hy : y.advance = a := run_done ht
    rw [hx, hy]
  | next z => rw [advance_next (h.trans ht), advance_next ht]

theorem Fits.of_turn_eq {x y : ClientExchange} (hx : x.Fits) (h : x.turn = y.turn)
    (hy : y.LineFits) : y.Fits := by
  intro z hz
  rcases hz.cases_head with rfl | ⟨u, hu, hz⟩
  · exact hy
  · exact hx z (.head (h.trans hu) hz)

/-! ## Turns with more input behind them -/

theorem take_push {x : ClientExchange} {n : Nat} (hn : n ≤ x.rx.length) (w : Bytes) :
    (x.push w).rx.take n = x.rx.take n := List.take_append_of_le_length hn

theorem drop_push {x : ClientExchange} {n : Nat} (hn : n ≤ x.rx.length) (w : Bytes) :
    (x.push w).rx.drop n = x.rx.drop n ++ w := List.drop_append_of_le_length hn

theorem line_lt {buf : Bytes} {nl : Nat} (h : buf.findIdx? (· == 0x0a) = some nl) :
    nl + 1 ≤ buf.length := by
  obtain ⟨hlt, -⟩ := List.findIdx?_eq_some_iff_getElem.mp h
  exact hlt

theorem line_push {x : ClientExchange} {nl : Nat} (h : x.rx.findIdx? (· == 0x0a) = some nl)
    (w : Bytes) : (x.push w).rx.findIdx? (· == 0x0a) = some nl := by
  rw [push_rx, List.findIdx?_append, h, Option.some_or]

/-- A line that is not there yet is longer than what is there. -/
theorem line_push_none {x : ClientExchange} {w : Bytes} {nl : Nat}
    (h : x.rx.findIdx? (· == 0x0a) = none)
    (hw : (x.push w).rx.findIdx? (· == 0x0a) = some nl) : x.rx.length < nl + 1 := by
  rw [push_rx, List.findIdx?_append, h, Option.none_or] at hw
  obtain ⟨i, -, rfl⟩ := Option.map_eq_some_iff.mp hw
  omega

theorem Chunk.push_next {x z : ClientExchange} {cs : ChunkState} (h : Chunk x cs (.next z))
    (hdata : cs.inTrailers = false → cs.remaining ≤ x.rx.length) (w : Bytes) :
    Chunk (x.push w) cs (.next (z.push w)) := by
  cases h with
  | trailer ht hnl hblank hroom =>
    have hlen := line_lt hnl
    have := Chunk.trailer ht (line_push hnl w) (by rwa [take_push hlen]) hroom
    rwa [drop_push hlen] at this
  | size ht hr hnl hp hroom =>
    have hlen := line_lt hnl
    have := Chunk.size ht hr (line_push hnl w) (by rwa [take_push hlen]) hroom
    rwa [drop_push hlen] at this
  | data ht hr hrx =>
    have hlen := hdata ht
    have := Chunk.data (x := x.push w) ht hr (by simp [hrx])
    have hle : cs.remaining ≤ (x.push w).rx.length := by simp; omega
    rw [take_push hlen, drop_push hlen, Nat.min_eq_left hle, Nat.sub_eq_zero_of_le hle] at this
    simp only [hle] at this
    simpa [ClientExchange.push, Nat.min_eq_left hlen, Nat.sub_eq_zero_of_le hlen, hlen] using this

theorem Chunk.push_last {x z : ClientExchange} {cs : ChunkState}
    (h : Chunk x cs (.done (.ok (true, z)))) (w : Bytes) :
    Chunk (x.push w) cs (.done (.ok (true, z.push w))) := by
  cases h with
  | blank ht hnl hblank =>
    have hlen := line_lt hnl
    have := Chunk.blank ht (line_push hnl w) (by rwa [take_push hlen])
    rwa [drop_push hlen] at this

theorem Chunk.push_fail {x : ClientExchange} {cs : ChunkState} {e : Error} {w : Bytes}
    (h : Chunk x cs (.done (.error e)))
    (hfits : cs.inTrailers = true ∨ cs.remaining = 0 →
      ∀ nl, (x.push w).rx.findIdx? (· == 0x0a) = some nl → nl + 1 ≤ maxHeaderBytes) :
    Chunk (x.push w) cs (.done (.error e)) := by
  cases h with
  | longLine hline hnl hroom =>
    refine .longLine hline ?_ (by simp; omega)
    cases hw : (x.push w).rx.findIdx? (· == 0x0a) with
    | none => rfl
    | some nl =>
      have := hfits hline nl hw
      have := line_push_none hnl hw
      omega
  | trailers ht hnl hblank hlong =>
    exact .trailers ht (line_push hnl w) (by rwa [take_push (line_lt hnl)]) hlong
  | badSize ht hr hnl hp =>
    exact .badSize ht hr (line_push hnl w) (by rwa [take_push (line_lt hnl)])
  | large ht hr hnl hp hs hlarge =>
    rw [← take_push (line_lt hnl) w] at hp
    exact .large ht hr (line_push hnl w) hp hs hlarge

/-- The state after data of which more is to come. -/
def afterData (x : ClientExchange) (cs : ChunkState) : ClientExchange :=
  { x with
    body := x.body ++ x.rx
    rx := []
    bodyTotal := x.bodyTotal + x.rx.length
    state := .chunked { cs with remaining := cs.remaining - x.rx.length } }

theorem Chunk.eq_afterData {x z : ClientExchange} {cs : ChunkState} (h : Chunk x cs (.next z))
    (ht : cs.inTrailers = false) (hshort : x.rx.length < cs.remaining) : z = x.afterData cs := by
  cases h with
  | trailer ht' => simp [ht] at ht'
  | size _ hr => omega
  | data _ hr hrx =>
    have hle := hshort.le
    simp [afterData, List.take_of_length_le hle, List.drop_of_length_le hle, Nat.min_eq_right hle,
      Nat.not_le.mpr hshort]

/-- Data that came in two pieces is data that came in one. -/
theorem chunk_afterData {x : ClientExchange} {cs : ChunkState} (ht : cs.inTrailers = false)
    (hshort : x.rx.length < cs.remaining) {w : Bytes} (hw : w ≠ []) :
    ∃ u, Chunk (x.push w) cs (.next u) ∧ Chunk ((x.afterData cs).push w)
      { cs with remaining := cs.remaining - x.rx.length } (.next u) := by
  have hle := hshort.le
  have hfirst := @Chunk.data (x.push w) cs ht (by omega) (by simp [hw])
  have hsecond := @Chunk.data ((x.afterData cs).push w)
    { cs with remaining := cs.remaining - x.rx.length } ht (by simp; omega)
    (by simp [afterData, hw])
  have hrem : cs.remaining - x.rx.length - w.length = cs.remaining - (x.rx.length + w.length) := by
    omega
  have hlast : decide (cs.remaining ≤ w.length + x.rx.length) =
      decide (cs.remaining ≤ x.rx.length + w.length) := by
    rw [Nat.add_comm]
  have htotal : x.bodyTotal + x.rx.length + min (cs.remaining - x.rx.length) w.length =
      x.bodyTotal + min cs.remaining (x.rx.length + w.length) := by omega
  refine ⟨_, hfirst, ?_⟩
  simpa [ClientExchange.push, afterData, List.take_append, List.drop_append,
    List.take_of_length_le hle, List.drop_of_length_le hle, hrem, hlast, htotal] using hsecond

/-! ## Resuming -/

/-- With more input behind both, the state a turn leaves goes on as the state it started in: the
turn is the same with that input, or it is taken again. -/
def Resumed (x y : ClientExchange) (w : Bytes) : Prop :=
  (x.push w).turn = .next (y.push w) ∨
    ((x.push w).turn = (y.push w).turn ∧ ((x.push w).LineFits → (y.push w).LineFits))

theorem Resumed.advance_eq {x y : ClientExchange} {w : Bytes} (h : Resumed x y w) :
    (x.push w).advance = (y.push w).advance := by
  rcases h with h | ⟨h, -⟩
  · exact advance_next h
  · exact advance_of_turn_eq h

theorem Resumed.fits {x y : ClientExchange} {w : Bytes} (h : Resumed x y w)
    (hfits : (x.push w).Fits) : (y.push w).Fits := by
  rcases h with h | ⟨h, hline⟩
  · exact hfits.next h
  · exact hfits.of_turn_eq h (hline hfits.line)

theorem Opens.line {x y : ClientExchange} {cs cs' : ChunkState} (hs : x.state = .chunked cs)
    (ho : Opens x cs y cs') (h : x.LineFits) (hline : cs'.inTrailers = true ∨ cs'.remaining = 0)
    {nl : Nat} (hnl : y.rx.findIdx? (· == 0x0a) = some nl) : nl + 1 ≤ maxHeaderBytes := by
  rw [LineFits, hs] at h
  cases ho with
  | already hc => exact h hline nl (by simpa [hc] using hnl)
  | crlf hc => exact h hline nl (by simpa [hc] using hnl)

theorem resume_chunk {x y z : ClientExchange} {cs cs' : ChunkState} {w : Bytes}
    (hs : x.state = .chunked cs) (ho : Opens x cs y cs') (hd : Chunk y cs' (.next z))
    (hx : x.turn = .next z) : Resumed x z w := by
  by_cases hdata : cs'.inTrailers = false → cs'.remaining ≤ y.rx.length
  · have hstep := Step.chunkNext (x := x.push w) hs (ho.push w) (hd.push_next hdata w)
    exact .inl hstep.turn_eq
  · -- data that has only begun to come
    obtain ⟨ht, hshort⟩ := Classical.not_imp.mp hdata
    have hz := hd.eq_afterData ht (Nat.lt_of_not_le hshort)
    by_cases hw : w = []
    · rw [hw, Resumed, push_nil, push_nil]
      exact .inl hx
    · obtain ⟨u, hfirst, hsecond⟩ := chunk_afterData ht (Nat.lt_of_not_le hshort) hw
      have hzs : z.state = .chunked { cs' with remaining := cs'.remaining - y.rx.length } := by
        rw [hz]
        rfl
      have hsame : (x.push w).turn = (z.push w).turn := by
        rw [(Step.chunkNext (x := x.push w) hs (ho.push w) hfirst).turn_eq]
        rw [hz] at hzs ⊢
        exact (Step.chunkNext (x := (y.afterData cs').push w) hzs (.already ho.pending)
          hsecond).turn_eq.symm
      refine .inr ⟨hsame, fun _ => ?_⟩
      rw [LineFits, push_state, hzs]
      rintro (h | h)
      · simp [ht] at h
      · simp only at h
        omega

theorem turn_stable (x y : ClientExchange) (hx : x.turn = .done (.ok y)) :
    y.turn = .done (.ok y) := by
  have hstep := turn_cases x
  rw [hx] at hstep
  cases hstep with
  | waitHead | waitLineEnd | done => exact hx
  | waitLength hs hn =>
    have := @Step.waitLength { x with
      bodyTotal := x.bodyTotal + x.rx.length, body := x.body ++ x.rx, rx := [] } _ hs (by simpa)
    simpa using this.turn_eq
  | chunkWait hs ho hd =>
    cases hd with
    | waitLine hline hnl hroom =>
      have hs' : y.state = .chunked _ := ho.state hs
      exact (Step.chunkWait hs' (.already ho.pending) (.waitLine hline hnl hroom)).turn_eq
    | waitData ht hr hrx =>
      have hs' : y.state = .chunked _ := ho.state hs
      exact (Step.chunkWait hs' (.already ho.pending) (.waitData ht hr hrx)).turn_eq
  | eof hs hroom =>
    have := @Step.eof { x with
      bodyTotal := x.bodyTotal + x.rx.length, body := x.body ++ x.rx, rx := [] } hs (by simpa)
    simpa using this.turn_eq

theorem resume_stall {x y : ClientExchange} (w : Bytes) (hx : x.turn = .done (.ok y)) :
    Resumed x y w := by
  have hstep := turn_cases x
  rw [hx] at hstep
  cases hstep with
  | waitHead | waitLineEnd | done => exact .inr ⟨rfl, id⟩
  | @waitLength n hs hn =>
    refine .inr ⟨?_, fun _ => by rw [LineFits, push_state]; simp [hs]⟩
    have hshort := (Nat.lt_sub_iff_add_lt'.mpr hn).le
    rcases Nat.lt_or_ge (x.bodyTotal + (x.rx.length + w.length)) n with h | h
    · have hfirst := @Step.waitLength (x.push w) n hs (by simpa)
      have hsecond := @Step.waitLength (ClientExchange.push { x with
        bodyTotal := x.bodyTotal + x.rx.length, body := x.body ++ x.rx, rx := [] } w) n hs
        (by simp; omega)
      rw [hfirst.turn_eq, hsecond.turn_eq]
      simp [push, Nat.add_assoc]
    · have hfirst := @Step.length (x.push w) n hs (by simpa)
      have hsecond := @Step.length (ClientExchange.push { x with
        bodyTotal := x.bodyTotal + x.rx.length, body := x.body ++ x.rx, rx := [] } w) n hs
        (by simp; omega)
      have htotal : x.bodyTotal + x.rx.length + (n - x.bodyTotal - x.rx.length) =
          x.bodyTotal + (n - x.bodyTotal) := by omega
      rw [hfirst.turn_eq, hsecond.turn_eq]
      simp [push, List.take_append, List.drop_append, List.take_of_length_le hshort,
        List.drop_of_length_le hshort, Nat.sub_add_eq, htotal]
  | chunkWait hs ho hd =>
    rw [hd.eq_of_wait]
    refine .inr ⟨(ho.push w).turn_eq hs, fun hfits => ?_⟩
    rw [LineFits, push_state, ho.state hs]
    simp only [ho.pending]
    intro hline nl hnl
    exact (ho.push w).line (x := x.push w) hs hfits hline hnl
  | eof hs hroom =>
    refine .inr ⟨?_, fun _ => by rw [LineFits, push_state]; simp [hs]⟩
    by_cases h : x.streaming = true ∨ x.bodyTotal + (x.rx.length + w.length) ≤ maxBodyBytes
    · have hfirst := @Step.eof (x.push w) hs (by simpa)
      have hsecond := @Step.eof (ClientExchange.push { x with
        bodyTotal := x.bodyTotal + x.rx.length, body := x.body ++ x.rx, rx := [] } w) hs
        (by simpa [Nat.add_assoc] using h)
      rw [hfirst.turn_eq, hsecond.turn_eq]
      simp [push, Nat.add_assoc]
    · obtain ⟨hm, hlarge⟩ := not_or.mp h
      have hfirst := @Step.large (x.push w) hs (Bool.eq_false_iff.mpr hm) (by simp; omega)
      have hsecond := @Step.large (ClientExchange.push { x with
        bodyTotal := x.bodyTotal + x.rx.length, body := x.body ++ x.rx, rx := [] } w) hs
        (Bool.eq_false_iff.mpr hm) (by simp; omega)
      rw [hfirst.turn_eq, hsecond.turn_eq]

theorem resume_fail (x : ClientExchange) (e : Error) (w : Bytes) (hfits : (x.push w).Fits)
    (hx : x.turn = .done (.error e)) : (x.push w).advance = .error e := by
  have hstep := turn_cases x
  rw [hx] at hstep
  refine run_done (Step.turn_eq ?_)
  cases hstep with
  | longHead hs he hroom =>
    refine .longHead hs ?_ (by simp; omega)
    cases hw : findHeaderEnd (x.push w).rx with
    | none => rfl
    | some n =>
      have hline := hfits.line
      rw [LineFits, push_state, hs] at hline
      have hn := hline n hw
      rw [findHeaderEnd_of_append hw (by omega)] at he
      cases he
  | badHead hs he hp =>
    rw [← take_push (findHeaderEnd_bounds he).2 w] at hp
    exact .badHead hs (findHeaderEnd_append he w) hp
  | interims hs he hp hi hmany =>
    rw [← take_push (findHeaderEnd_bounds he).2 w] at hp
    exact .interims hs (findHeaderEnd_append he w) hp hi hmany
  | unframed hs he hp hi hm =>
    rw [← take_push (findHeaderEnd_bounds he).2 w] at hp
    exact .unframed hs (findHeaderEnd_append he w) hp hi hm
  | noLineEnd hs hc hlen hrx =>
    rw [← take_push hlen w] at hrx
    exact .noLineEnd hs hc (by simp; omega) hrx
  | chunkFail hs ho hd =>
    exact .chunkFail (x := x.push w) hs (ho.push w)
      (hd.push_fail fun hline nl hnl =>
        (ho.push w).line (x := x.push w) hs hfits.line hline hnl)
  | large hs hm hlarge => exact .large hs hm (by simp; omega)

theorem resume_next {x y : ClientExchange} (w : Bytes) (hx : x.turn = .next y) :
    Resumed x y w := by
  have hstep := turn_cases x
  rw [hx] at hstep
  cases hstep with
  | interim hs he hp hi hfew =>
    have hlen := (findHeaderEnd_bounds he).2
    rw [← take_push hlen w] at hp
    have hstep := @Step.interim (x.push w) _ _ hs (findHeaderEnd_append he w) hp hi hfew
    rw [drop_push hlen] at hstep
    exact .inl hstep.turn_eq
  | final hs he hp hi hm =>
    have hlen := (findHeaderEnd_bounds he).2
    rw [← take_push hlen w] at hp
    have hstep := @Step.final (x.push w) _ _ _ hs (findHeaderEnd_append he w) hp hi hm
    rw [drop_push hlen] at hstep
    refine .inl ?_
    rw [← enter_push]
    exact hstep.turn_eq
  | length hs hn =>
    have hstep := Step.length (x := x.push w) hs (by simp; omega)
    rw [push_bodyTotal, take_push (by omega), drop_push (by omega)] at hstep
    refine .inl ?_
    rw [← finish_push]
    exact hstep.turn_eq
  | chunkNext hs ho hd => exact resume_chunk hs ho hd hx
  | chunkLast hs ho hd =>
    have hstep := Step.chunkLast (x := x.push w) hs (ho.push w) (hd.push_last w)
    refine .inl ?_
    rw [← finish_push]
    exact hstep.turn_eq

theorem advance_resumes : Resumes turn_lowers push Fits where
  push_nil := push_nil
  push_append := push_append
  stable := turn_stable
  next x y w hfits hx := ⟨(resume_next w hx).advance_eq, (resume_next w hx).fits hfits⟩
  stall x y w hfits hx := ⟨(resume_stall w hx).advance_eq, (resume_stall w hx).fits hfits⟩
  fail := resume_fail

/-- Input that was decoded need not be decoded again when there is more. -/
theorem advance_push {x y : ClientExchange} (h : x.advance = .ok y) (w : Bytes) :
    (x.push w).advance = (y.push w).advance := by
  refine run_rule turn_lowers
    (fun x a => a = .ok y → (x.push w).advance = (y.push w).advance) ?_ ?_ x h
  · rintro x a hx rfl
    exact (resume_stall w hx).advance_eq
  · intro x x' a hx ih h
    exact (resume_next w hx).advance_eq.trans (ih h)

/-! ## What the caller sees -/

/-- The body bytes in events. -/
def delivered (events : List Event) : Bytes := events.flatMap fun
  | .response _ body => body
  | .body chunk => chunk
  | .head _ | .end => []

/-- The machine as if it had emitted nothing yet, also not the body bytes `pre`. -/
def norm (pre : Bytes) (x : ClientExchange) : ClientExchange :=
  { x with events := [], headEmitted := false, body := pre ++ (delivered x.events ++ x.body) }

theorem norm_emitHead (pre : Bytes) (x : ClientExchange) : x.emitHead.norm pre = x.norm pre := by
  unfold emitHead norm
  split
  · rfl
  · split <;> simp [delivered]

theorem norm_emitBody (pre : Bytes) (x : ClientExchange) : x.emitBody.norm pre = x.norm pre := by
  unfold emitBody norm
  split <;> simp [delivered]

theorem norm_emitStreaming (pre : Bytes) (x : ClientExchange) :
    x.emitStreaming.norm pre = x.norm pre := by
  rw [emitStreaming, norm_emitBody, norm_emitHead]

theorem norm_finish (pre : Bytes) (x : ClientExchange) :
    x.finish.norm pre = { x.norm pre with state := .done } := by
  unfold finish
  split
  · have hend (y : ClientExchange) : norm pre { y with events := y.events ++ [.end], state := .done } =
        { y.norm pre with state := .done } := by
      simp [norm, delivered]
    rw [hend, norm_emitStreaming]
  · cases hh : x.head <;> simp [norm, delivered, hh]

theorem norm_enter {pre pre' : Bytes} {x y : ClientExchange} (h : x.norm pre = y.norm pre')
    (mode : BodyMode) : (x.enter mode).norm pre = (y.enter mode).norm pre' := by
  have hfinish : x.finish.norm pre = y.finish.norm pre' := by rw [norm_finish, norm_finish, h]
  have hstate (s : State) : norm pre { x with state := s } = norm pre' { y with state := s } := by
    simp only [norm, mk.injEq] at h ⊢
    grind
  unfold enter
  split
  · exact hfinish
  · exact hfinish
  · exact hstate _
  · exact hstate _
  · exact hstate _

/-- The same machine with other output. -/
def withOutput (x : ClientExchange) (events : List Event) (headEmitted : Bool) (body : Bytes) :
    ClientExchange := { x with events, headEmitted, body }

section

variable {x : ClientExchange} {events : List Event} {emitted : Bool}
  {body pre pre' : Bytes}

theorem eq_withOutput {y : ClientExchange} (h : x.norm pre = y.norm pre') :
    y = x.withOutput y.events y.headEmitted y.body := by
  cases y
  simp only [norm, mk.injEq] at h
  simp only [withOutput, mk.injEq]
  grind

theorem Opens.withOutput {y : ClientExchange} {cs cs' : ChunkState} (h : Opens x cs y cs') :
    Opens (x.withOutput events emitted body) cs (y.withOutput events emitted body) cs' := by
  cases h with
  | already h => exact .already h
  | crlf h hlen hrx => exact .crlf (x := x.withOutput events emitted body) h hlen hrx

theorem Opens.output {y : ClientExchange} {cs cs' : ChunkState} (h : Opens x cs y cs') :
    pre ++ (delivered y.events ++ y.body) = pre ++ (delivered x.events ++ x.body) := by
  cases h <;> rfl

/-- A turn does not look at the output. -/
theorem Chunk.withOutput {cs : ChunkState}
    {t : Turn ClientExchange (Except Error (Bool × ClientExchange))} (h : Chunk x cs t)
    (emitted : Bool)
    (hout : pre ++ (delivered x.events ++ x.body) = pre' ++ (delivered events ++ body)) :
    match t with
    | .next z => ∃ z', Chunk (x.withOutput events emitted body) cs (.next z') ∧ z.norm pre = z'.norm pre'
    | .done (.ok (b, z)) => ∃ z', Chunk (x.withOutput events emitted body) cs (.done (.ok (b, z'))) ∧
        z.norm pre = z'.norm pre'
    | .done (.error e) => Chunk (x.withOutput events emitted body) cs (.done (.error e)) := by
  cases h with
  | waitLine hline hnl hroom =>
    exact ⟨_, .waitLine hline hnl hroom, by simp [norm, ClientExchange.withOutput, hout]⟩
  | longLine hline hnl hroom => exact .longLine hline hnl hroom
  | blank ht hnl hblank =>
    exact ⟨_, .blank ht hnl hblank, by simp [norm, ClientExchange.withOutput, hout]⟩
  | trailers ht hnl hblank hlong => exact .trailers ht hnl hblank hlong
  | trailer ht hnl hblank hroom =>
    exact ⟨_, .trailer ht hnl hblank hroom, by simp [norm, ClientExchange.withOutput, hout]⟩
  | waitData ht hr hrx =>
    exact ⟨_, .waitData ht hr hrx, by simp [norm, ClientExchange.withOutput, hout]⟩
  | data ht hr hrx =>
    refine ⟨_, .data ht hr hrx, ?_⟩
    have := congrArg (· ++ x.rx.take cs.remaining) hout
    simp only [List.append_assoc] at this
    simp only [norm, ClientExchange.withOutput, List.append_assoc, this]
    rfl
  | badSize ht hr hnl hp => exact .badSize ht hr hnl hp
  | large ht hr hnl hp hs hlarge =>
    exact .large (x := x.withOutput events emitted body) ht hr hnl hp hs hlarge
  | size ht hr hnl hp hroom =>
    refine ⟨_, .size (x := x.withOutput events emitted body) ht hr hnl hp hroom, ?_⟩
    simp [norm, ClientExchange.withOutput, hout]

/-- What two machines with the same past make of it is the same. -/
inductive SameTurn (pre pre' : Bytes) : Turn ClientExchange (Except Error ClientExchange) →
    Turn ClientExchange (Except Error ClientExchange) → Prop where
  | next {y z : ClientExchange} (h : y.norm pre = z.norm pre') : SameTurn pre pre' (.next y) (.next z)
  | ok {y z : ClientExchange} (h : y.norm pre = z.norm pre') : SameTurn pre pre' (.done (.ok y)) (.done (.ok z))
  | error (e : Error) : SameTurn pre pre' (.done (.error e)) (.done (.error e))

theorem turn_withOutput
    (hout : pre ++ (delivered x.events ++ x.body) = pre' ++ (delivered events ++ body)) :
    SameTurn pre pre' x.turn (x.withOutput events emitted body).turn := by
  have hfinish {y z : ClientExchange} (h : y.norm pre = z.norm pre') :
      y.finish.norm pre = z.finish.norm pre' := by
    rw [norm_finish, norm_finish, h]
  have hmore (d : Bytes) : pre ++ (delivered x.events ++ (x.body ++ d)) =
      pre' ++ (delivered events ++ (body ++ d)) := by
    simpa using congrArg (· ++ d) hout
  have hstep := turn_cases x
  generalize x.turn = t at hstep
  cases hstep with
  | waitHead hs he hroom =>
    rw [(Step.waitHead (x := x.withOutput events emitted body) hs he hroom).turn_eq]
    exact .ok (by simp [norm, ClientExchange.withOutput, hout])
  | longHead hs he hroom =>
    rw [(Step.longHead (x := x.withOutput events emitted body) hs he hroom).turn_eq]
    exact .error _
  | badHead hs he hp =>
    rw [(Step.badHead (x := x.withOutput events emitted body) hs he hp).turn_eq]
    exact .error _
  | interims hs he hp hi hmany =>
    rw [(@Step.interims (x.withOutput events emitted body) _ _ hs he hp hi hmany).turn_eq]
    exact .error _
  | interim hs he hp hi hfew =>
    rw [(@Step.interim (x.withOutput events emitted body) _ _ hs he hp hi hfew).turn_eq]
    exact .next (by simp [norm, ClientExchange.withOutput, hout])
  | unframed hs he hp hi hm =>
    rw [(@Step.unframed (x.withOutput events emitted body) _ _ _ hs he hp hi hm).turn_eq]
    exact .error _
  | final hs he hp hi hm =>
    rw [(@Step.final (x.withOutput events emitted body) _ _ _ hs he hp hi hm).turn_eq]
    exact .next (norm_enter (by simp [norm, ClientExchange.withOutput, hout]) _)
  | length hs hn =>
    rw [(Step.length (x := x.withOutput events emitted body) hs hn).turn_eq]
    refine .next (hfinish ?_)
    simp only [norm, ClientExchange.withOutput, hmore]
  | waitLength hs hn =>
    rw [(Step.waitLength (x := x.withOutput events emitted body) hs hn).turn_eq]
    exact .ok (by simp only [norm, ClientExchange.withOutput, hmore])
  | waitLineEnd hs hc hlen =>
    rw [(Step.waitLineEnd (x := x.withOutput events emitted body) hs hc hlen).turn_eq]
    exact .ok (by simp [norm, ClientExchange.withOutput, hout])
  | noLineEnd hs hc hlen hrx =>
    rw [(Step.noLineEnd (x := x.withOutput events emitted body) hs hc hlen hrx).turn_eq]
    exact .error _
  | chunkNext hs ho hd =>
    obtain ⟨z', hd', hz⟩ := hd.withOutput emitted (ho.output.trans hout)
    rw [(Step.chunkNext (x := x.withOutput events emitted body) hs ho.withOutput hd').turn_eq]
    exact .next hz
  | chunkLast hs ho hd =>
    obtain ⟨z', hd', hz⟩ := hd.withOutput emitted (ho.output.trans hout)
    rw [(Step.chunkLast (x := x.withOutput events emitted body) hs ho.withOutput hd').turn_eq]
    exact .next (hfinish hz)
  | chunkWait hs ho hd =>
    obtain ⟨z', hd', hz⟩ := hd.withOutput emitted (ho.output.trans hout)
    rw [(Step.chunkWait (x := x.withOutput events emitted body) hs ho.withOutput hd').turn_eq]
    exact .ok hz
  | chunkFail hs ho hd =>
    have hd' := hd.withOutput emitted (ho.output.trans hout)
    rw [(Step.chunkFail (x := x.withOutput events emitted body) hs ho.withOutput hd').turn_eq]
    exact .error _
  | large hs hm hlarge =>
    rw [(Step.large (x := x.withOutput events emitted body) hs hm hlarge).turn_eq]
    exact .error _
  | eof hs hroom =>
    rw [(Step.eof (x := x.withOutput events emitted body) hs hroom).turn_eq]
    exact .ok (by simp only [norm, ClientExchange.withOutput, hmore])
  | done hs =>
    rw [(Step.done (x := x.withOutput events emitted body) hs).turn_eq]
    exact .ok (by simp [norm, ClientExchange.withOutput, hout])

end

theorem turn_norm {x y : ClientExchange} {pre pre' : Bytes} (h : x.norm pre = y.norm pre') :
    SameTurn pre pre' x.turn y.turn := by
  rw [eq_withOutput h]
  refine turn_withOutput ?_
  simp only [norm, mk.injEq] at h
  exact h.2.2.2.2.2.1

section

variable {x y : ClientExchange} {pre pre' : Bytes}

theorem advance_norm (h : x.norm pre = y.norm pre') :
    x.advance.map (norm pre) = y.advance.map (norm pre') := by
  refine run_rule turn_lowers (fun x a => ∀ y, x.norm pre = y.norm pre' →
    a.map (norm pre) = y.advance.map (norm pre')) ?_ ?_ x y h
  · intro x a ha y h
    have hsame := turn_norm h
    rw [ha] at hsame
    generalize hy : y.turn = t at hsame
    cases hsame with
    | ok h' =>
      have hrun : y.advance = .ok _ := run_done hy
      rw [hrun]
      exact congrArg Except.ok h'
    | error e =>
      have hrun : y.advance = .error e := run_done hy
      rw [hrun]
      rfl
  · intro x x' a hx ih y h
    have hsame := turn_norm h
    rw [hx] at hsame
    generalize hy : y.turn = t at hsame
    cases hsame with
    | next h' =>
      rw [advance_next hy]
      exact ih _ h'

theorem norm_push (h : x.norm pre = y.norm pre') (w : Bytes) :
    (x.push w).norm pre = (y.push w).norm pre' := by
  simp only [norm, mk.injEq, push] at h ⊢
  grind

theorem fits_norm (h : x.norm pre = y.norm pre') (hfits : x.Fits) : y.Fits := by
  intro z hz
  have hfits' : ∀ x : ClientExchange, x.norm pre = y.norm pre' → x.Fits → z.LineFits := by
    clear h hfits
    induction hz using Relation.ReflTransGen.head_induction_on with
    | refl =>
      intro x h hfits
      have hline := hfits.line
      simp only [norm, mk.injEq] at h
      rw [LineFits] at hline ⊢
      rwa [h.2.2.1, h.2.2.2.1] at hline
    | head hy _ ih =>
      intro x h hfits
      have hsame := turn_norm h
      rw [hy] at hsame
      generalize hx : x.turn = t at hsame
      cases hsame with
      | next h' => exact ih _ h' (hfits.next hx)
  exact hfits' x h hfits

/-! ## Sessions -/

/-- What is left of a machine that has finished does not matter. -/
def erase (x : ClientExchange) : ClientExchange := if x.state = .done then { x with rx := [] } else x

/-- The progress of a machine, whatever it has emitted. -/
def gist (pre : Bytes) (x : ClientExchange) : ClientExchange := (x.norm pre).erase

theorem gist_gist (pre : Bytes) (x : ClientExchange) : (x.gist pre).gist [] = x.gist pre := by
  by_cases hs : x.state = .done <;> simp [gist, erase, norm, hs, delivered]

theorem gist_state (pre : Bytes) (x : ClientExchange) : (x.gist pre).state = x.state := by
  unfold gist erase
  split <;> rfl

theorem advance_done (hs : x.state = .done) : x.advance = .ok x := run_done (Step.done hs).turn_eq

theorem gist_push (hs : x.state = .done) (w : Bytes) : (x.push w).gist pre = x.gist pre := by
  simp [gist, erase, norm, push, hs]

theorem norm_of_gist (hs : x.state ≠ .done) (h : x.gist pre = y.gist pre') :
    x.norm pre = y.norm pre' := by
  have hs' : y.state ≠ .done := by
    rw [← gist_state pre' y, ← h, gist_state]
    exact hs
  have herase {z : ClientExchange} {p : Bytes} (hz : z.state ≠ .done) : z.gist p = z.norm p :=
    if_neg hz
  rwa [herase hs, herase hs'] at h

theorem advance_gist (h : x.gist pre = y.gist pre') (w : Bytes) :
    (x.push w).advance.map (gist pre) = (y.push w).advance.map (gist pre') := by
  by_cases hs : x.state = .done
  · have hs' : y.state = .done := by rw [← gist_state pre' y, ← h, gist_state, hs]
    rw [advance_done (x := x.push w) hs, advance_done (x := y.push w) hs']
    simp only [Except.map, gist_push hs, gist_push hs', h]
  · have hnorm := congrArg (Except.map erase) (advance_norm (norm_push (norm_of_gist hs h) w))
    have hmap (p : Bytes) (r : Except Error ClientExchange) :
        (r.map (norm p)).map erase = r.map (gist p) := by
      cases r <;> rfl
    rwa [hmap, hmap] at hnorm

theorem fits_gist (h : x.gist pre = y.gist pre') {w : Bytes} (hfits : (x.push w).Fits) :
    (y.push w).Fits := by
  by_cases hs : x.state = .done
  · have hs' : y.state = .done := by rw [← gist_state pre' y, ← h, gist_state, hs]
    have hline : (y.push w).LineFits := by simp [LineFits, hs']
    intro z hz
    rcases hz.cases_head with rfl | ⟨u, hu, -⟩
    · exact hline
    · rw [(Step.done (x := y.push w) hs').turn_eq] at hu
      cases hu
  · exact fits_norm (norm_push (norm_of_gist hs h) w) hfits

end

/-- A machine in use, and the events its caller has polled. -/
structure Session where
  seen : List Event
  machine : ClientExchange
  deriving DecidableEq, Repr

namespace Session

def start (x : ClientExchange) : Session := ⟨[], x⟩

/-- Poll up to `n` events. -/
def poll : Nat → Session → Session
  | 0, s => s
  | n + 1, s => match s.machine.pollEvent with
    | none => s
    | some (e, x) => poll n ⟨s.seen ++ [e], x⟩

/-- Offer a piece of the stream, then poll. -/
def call (piece : Bytes × Nat) (s : Session) : Except Error Session :=
  (s.machine.handleInput piece.1).map fun r => poll piece.2 ⟨s.seen, r.2⟩

def eof (s : Session) : Except Error Session :=
  s.machine.handleEof.map fun x => ⟨s.seen, x⟩

/-- Feed the pieces, then signal the end of the stream or not. -/
def exchange (pieces : List (Bytes × Nat)) (atEof : Bool) (s : Session) : Except Error Session :=
  (feed call pieces s).bind fun s => if atEof then s.eof else .ok s

/-- All events so far, polled or not. -/
def events (s : Session) : List Event := s.seen ++ s.machine.events

def headOf (events : List Event) : Option ResponseHead := events.findSome? fun
  | .response head _ | .head head => some head
  | .body _ | .end => none

/-- The head, the body, and whether the machine is finished once every event is polled. -/
def result (s : Session) : Option ResponseHead × Bytes × Bool :=
  (headOf s.events, delivered s.events, { s.machine with events := [] : ClientExchange }.isFinished)

def view (s : Session) : ClientExchange := s.machine.gist (delivered s.seen)

theorem view_poll (n : Nat) (s : Session) : (s.poll n).view = s.view := by
  induction n generalizing s with
  | zero => rfl
  | succ n ih =>
    rw [poll]
    cases he : s.machine.events with
    | nil => simp [pollEvent, he]
    | cons e rest =>
      simp only [pollEvent, he]
      rw [ih]
      simp [view, gist, erase, norm, he, delivered]

theorem view_call (piece : Bytes × Nat) (s : Session) :
    (s.call piece).map view = (s.view.push piece.1).advance.map (gist []) := by
  have hgist : s.view.gist [] = s.machine.gist (delivered s.seen) := gist_gist _ _
  rw [advance_gist hgist, call]
  unfold handleInput
  split
  · rename_i hs
    rw [advance_done (x := s.machine.push piece.1) hs]
    simp only [Except.map, view_poll, gist_push hs]
    rfl
  · cases (s.machine.push piece.1).advance with
    | error e => rfl
    | ok x =>
      simp only [Except.map, view_poll]
      split
      · simp [view, gist, norm_emitStreaming]
      · rfl

/-- The pieces make no difference to what has been decoded. -/
theorem feed_view (pieces : List (Bytes × Nat)) (s : Session)
    (hfits : (s.view.push (pieces.flatMap Prod.fst)).Fits)
    (hidle : s.view.advance.map (gist []) = .ok s.view) :
    (feed call pieces s).map view =
      (s.view.push (pieces.flatMap Prod.fst)).advance.map (gist []) := by
  refine advance_resumes.feed_eq (fun x w => ?_) (fun x w h => ?_) view_call pieces s hfits hidle
  · exact advance_gist (gist_gist [] x) w
  · exact fits_gist (gist_gist [] x).symm h

theorem view_eof {s t : Session} (h : s.view = t.view) : s.eof.map view = t.eof.map view := by
  have hs : s.machine.state = t.machine.state := by
    rw [← gist_state (delivered s.seen) s.machine, ← gist_state (delivered t.seen) t.machine]
    exact congrArg ClientExchange.state h
  by_cases heof : s.machine.state = .eof
  · have heof' : t.machine.state = .eof := hs ▸ heof
    have hnorm := norm_of_gist (x := s.machine) (by simp [heof]) h
    have heofs {u : Session} (hu : u.machine.state = .eof) : u.eof.map view =
        .ok (gist (delivered u.seen)
          (finish { u.machine with body := u.machine.body ++ u.machine.rx, rx := [] })) := by
      simp [eof, handleEof, hu, Except.map, view]
    have hlast (pre : Bytes) (x : ClientExchange) :
        gist pre (finish { x with body := x.body ++ x.rx, rx := [] }) =
          { x.norm pre with
            body := (x.norm pre).body ++ (x.norm pre).rx, rx := [], state := .done } := by
      rw [gist, norm_finish]
      simp [erase, norm]
    rw [heofs heof, heofs heof', hlast, hlast, hnorm]
  · unfold eof handleEof
    cases hst : s.machine.state with
    | eof => exact absurd hst heof
    | done =>
      rw [← hs, hst]
      exact congrArg Except.ok h
    | head | length n | chunked cs =>
      rw [← hs, hst]
      rfl

end Session

/-! ## What the events say -/

/-- Decoding within chunks leaves the head and the output alone. -/
theorem Chunk.frame {x z : ClientExchange} {cs : ChunkState}
    {t : Turn ClientExchange (Except Error (Bool × ClientExchange))} (h : Chunk x cs t)
    (hz : t = .next z ∨ ∃ b, t = .done (.ok (b, z))) :
    z.head = x.head ∧ z.headEmitted = x.headEmitted ∧ z.events = x.events ∧
      z.streaming = x.streaming := by
  cases h <;> rcases hz with hz | ⟨b, hz⟩ <;> cases hz <;> exact ⟨rfl, rfl, rfl, rfl⟩

theorem Chunk.state_next {x z : ClientExchange} {cs : ChunkState} (h : Chunk x cs (.next z)) :
    ∃ cs', z.state = .chunked cs' := by
  cases h <;> exact ⟨_, rfl⟩

theorem Opens.frame {x y : ClientExchange} {cs cs' : ChunkState} (h : Opens x cs y cs') :
    y.head = x.head ∧ y.headEmitted = x.headEmitted ∧ y.events = x.events ∧
      y.streaming = x.streaming := by
  cases h <;> exact ⟨rfl, rfl, rfl, rfl⟩

/-- What a machine at work has emitted, after the events `seen` that were polled: the head first,
then body bytes; or nothing. -/
structure Emitting (seen : List Event) (x : ClientExchange) : Prop where
  streamed : x.streaming = true → ∃ chunks : List Bytes,
    seen ++ x.events = (if x.headEmitted then x.head.toList.map Event.head else []) ++
      chunks.map Event.body ∧ (x.headEmitted = false → chunks = [])
  buffered : x.streaming = false → x.headEmitted = false ∧ seen ++ x.events = []

/-- What a machine has emitted that is done. -/
structure Ended (seen : List Event) (x : ClientExchange) : Prop where
  flushed : x.body = []
  streamed : x.streaming = true → ∃ head, ∃ chunks : List Bytes, x.head = some head ∧
    x.headEmitted = true ∧ seen ++ x.events = .head head :: (chunks.map Event.body ++ [.end])
  buffered : x.streaming = false →
    ∃ head body, x.head = some head ∧ seen ++ x.events = [.response head body]

/-- What a machine has emitted, in whatever state. -/
structure Published (seen : List Event) (x : ClientExchange) : Prop where
  fresh : x.state = .head → x.head = none ∧ x.headEmitted = false ∧ x.body = []
  parsed : x.state ≠ .head → x.head.isSome
  emitting : x.state ≠ .done → Emitting seen x
  ended : x.state = .done → Ended seen x

/-- Nothing that was decoded waits to be emitted. -/
def Flushed (x : ClientExchange) : Prop :=
  x.streaming = true → x.body = [] ∧ x.headEmitted = x.head.isSome

section

variable {x y : ClientExchange} {seen : List Event}

theorem published_build (method : String) (request : Bytes) (streaming : Bool) :
    Published [] (build method request streaming) := by
  refine ⟨by simp [build], by simp [build], fun _ => ⟨fun _ => ⟨[], ?_⟩, ?_⟩, by simp [build]⟩
  · simp [build]
  · simp [build]

theorem Emitting.congr (h : Emitting seen x) (hhead : y.head = x.head)
    (hemitted : y.headEmitted = x.headEmitted) (hevents : y.events = x.events)
    (hstreaming : y.streaming = x.streaming) : Emitting seen y := by
  refine ⟨fun hm => ?_, fun hm => ?_⟩
  · rw [hevents, hhead, hemitted]
    exact h.streamed (hstreaming ▸ hm)
  · rw [hevents, hemitted]
    exact h.buffered (hstreaming ▸ hm)

/-- Nothing was emitted before the head. -/
theorem Emitting.withHead (h : Emitting seen x) (hx : x.headEmitted = false) (rx : Bytes)
    (head : ResponseHead) : Emitting seen { x with rx, head := some head } := by
  refine ⟨fun hm => ⟨[], ?_, fun _ => rfl⟩, h.buffered⟩
  obtain ⟨chunks, hev, hnil⟩ := h.streamed hm
  simpa [hx, hnil hx] using hev

theorem emitStreaming_of_head {head : ResponseHead} (hhead : x.head = some head) :
    x.emitStreaming = { x with
      events := x.events ++ (if x.headEmitted then [] else [.head head]) ++
        (if x.body.isEmpty then [] else [.body x.body])
      headEmitted := true
      body := [] } := by
  unfold emitStreaming emitHead emitBody
  cases x
  grind

theorem emitStreaming_of_none (hhead : x.head = none) (hbody : x.body = []) :
    x.emitStreaming = x := by
  simp [emitStreaming, emitHead, emitBody, hhead, hbody]

theorem Emitting.emitStreaming (h : Emitting seen x) (hm : x.streaming = true)
    (hhead : x.head.isSome) : ∃ head, ∃ chunks : List Bytes, x.head = some head ∧
      seen ++ x.emitStreaming.events = .head head :: chunks.map Event.body := by
  obtain ⟨head, hhead⟩ := Option.isSome_iff_exists.mp hhead
  obtain ⟨chunks, hev, hnil⟩ := h.streamed hm
  rw [emitStreaming_of_head hhead]
  refine ⟨head, chunks ++ (if x.body.isEmpty then [] else [x.body]), hhead, ?_⟩
  cases he : x.headEmitted with
  | true =>
    simp only [he, hhead, ite_true] at hev ⊢
    rw [List.append_nil, ← List.append_assoc, hev]
    split <;> simp
  | false =>
    rw [hnil he, he, if_neg Bool.false_ne_true] at hev
    rw [hnil he, if_neg Bool.false_ne_true, ← List.append_assoc, ← List.append_assoc, hev]
    split <;> simp

theorem Emitting.finish (h : Emitting seen x) (hhead : x.head.isSome) : Ended seen x.finish := by
  obtain ⟨head, hsome⟩ := Option.isSome_iff_exists.mp hhead
  cases hm : x.streaming with
  | true =>
    obtain ⟨head', chunks, hhead', hev⟩ := h.emitStreaming hm hhead
    have hfinish : x.finish = { x.emitStreaming with
        events := x.emitStreaming.events ++ [.end], state := .done } := by simp [ClientExchange.finish, hm]
    rw [hfinish]
    have hout := emitStreaming_of_head hsome
    refine ⟨by rw [hout], fun _ => ⟨head', chunks, ?_, by rw [hout], ?_⟩, fun hm' => ?_⟩
    · rw [hout]
      exact hhead'
    · simp only
      rw [← List.append_assoc, hev]
      rfl
    · rw [hout] at hm'
      simp [hm] at hm'
  | false =>
    have hfinish : x.finish = { x with
        events := x.events ++ [.response head x.body], body := [], state := .done } := by
      simp [ClientExchange.finish, hm, hsome]
    rw [hfinish]
    refine ⟨rfl, fun hm' => ?_, fun _ => ⟨head, x.body, hsome, ?_⟩⟩
    · simp [hm] at hm'
    · simp only
      rw [← List.append_assoc, (h.buffered hm).2]
      rfl

theorem Emitting.published_finish (h : Emitting seen x) (hhead : x.head.isSome) :
    Published seen x.finish := by
  refine ⟨by simp, fun _ => ?_, by simp, fun _ => h.finish hhead⟩
  obtain ⟨head, hhead⟩ := Option.isSome_iff_exists.mp hhead
  unfold ClientExchange.finish
  split
  · simp [emitStreaming_of_head hhead, hhead]
  · simp [hhead]

theorem finish_flushed (hhead : x.head.isSome) : x.finish.Flushed := by
  obtain ⟨head, hhead⟩ := Option.isSome_iff_exists.mp hhead
  unfold ClientExchange.finish
  split
  · intro _
    simp [emitStreaming_of_head hhead, hhead]
  · rename_i hm
    intro hm'
    simp [hhead, hm] at hm'

theorem Published.turn (h : Published seen x) (hx : x.turn = .next y) : Published seen y := by
  have hdone {z : ClientExchange} (hz : Emitting seen z) (hhead : z.head.isSome) :
      Published seen z.finish := hz.published_finish hhead
  have hstep := turn_cases x
  rw [hx] at hstep
  cases hstep with
  | interim hs =>
    exact ⟨h.fresh, h.parsed, fun hd => (h.emitting hd).congr rfl rfl rfl rfl,
      fun hd => by simp [hs] at hd⟩
  | @final endPos head mode hs he hp hi hm =>
    have hfirst := (h.emitting (by simp [hs])).withHead (h.fresh hs).2.1 (x.rx.drop endPos) head
    unfold enter
    split
    · exact hdone hfirst rfl
    · exact hdone hfirst rfl
    · exact ⟨by simp, by simp, fun _ => hfirst.congr rfl rfl rfl rfl, by simp⟩
    · exact ⟨by simp, by simp, fun _ => hfirst.congr rfl rfl rfl rfl, by simp⟩
    · exact ⟨by simp, by simp, fun _ => hfirst.congr rfl rfl rfl rfl, by simp⟩
  | length hs hn =>
    exact hdone ((h.emitting (by simp [hs])).congr rfl rfl rfl rfl) (h.parsed (by simp [hs]))
  | chunkNext hs ho hd =>
    obtain ⟨hhead, hemitted, hevents, hstreaming⟩ := hd.frame (.inl rfl)
    obtain ⟨hhead', hemitted', hevents', hstreaming'⟩ := ho.frame
    obtain ⟨cs', hy⟩ := hd.state_next
    refine ⟨by simp [hy], fun _ => ?_, fun _ => ?_, by simp [hy]⟩
    · rw [hhead, hhead']
      exact h.parsed (by simp [hs])
    · exact (h.emitting (by simp [hs])).congr (hhead.trans hhead') (hemitted.trans hemitted')
        (hevents.trans hevents') (hstreaming.trans hstreaming')
  | chunkLast hs ho hd =>
    obtain ⟨hhead, hemitted, hevents, hstreaming⟩ := hd.frame (.inr ⟨true, rfl⟩)
    obtain ⟨hhead', hemitted', hevents', hstreaming'⟩ := ho.frame
    refine hdone ?_ ?_
    · exact (h.emitting (by simp [hs])).congr (hhead.trans hhead') (hemitted.trans hemitted')
        (hevents.trans hevents') (hstreaming.trans hstreaming')
    · rw [hhead, hhead']
      exact h.parsed (by simp [hs])

theorem Published.push (h : Published seen x) (w : Bytes) : Published seen (x.push w) :=
  ⟨h.fresh, h.parsed, fun hd => (h.emitting hd).congr rfl rfl rfl rfl, fun hd =>
    ⟨(h.ended hd).flushed, (h.ended hd).streamed, (h.ended hd).buffered⟩⟩

/-- A polled event is still an event. -/
theorem Published.poll {e : Event} {rest : List Event} (h : Published seen x)
    (he : x.events = e :: rest) : Published (seen ++ [e]) { x with events := rest } := by
  have hev : seen ++ [e] ++ rest = seen ++ x.events := by simp [he]
  refine ⟨h.fresh, h.parsed, fun hd => ⟨?_, ?_⟩, fun hd => ⟨(h.ended hd).flushed, ?_, ?_⟩⟩
  · simp only [hev]
    exact (h.emitting hd).streamed
  · simp only [hev]
    exact (h.emitting hd).buffered
  · simp only [hev]
    exact (h.ended hd).streamed
  · simp only [hev]
    exact (h.ended hd).buffered

/-- Waiting for input emits nothing. -/
theorem Published.stall (h : Published seen x) (hx : x.turn = .done (.ok y)) : Published seen y := by
  have hstep := turn_cases x
  rw [hx] at hstep
  cases hstep with
  | waitHead | waitLineEnd | done => exact h
  | waitLength hs | eof hs =>
    exact ⟨by simp [hs], h.parsed, fun hd => (h.emitting hd).congr rfl rfl rfl rfl, by simp [hs]⟩
  | chunkWait hs ho hd =>
    obtain ⟨hhead, hemitted, hevents, hstreaming⟩ := ho.frame
    rw [hd.eq_of_wait]
    refine ⟨by simp [ho.state hs], fun _ => ?_, fun _ => ?_, by simp [ho.state hs]⟩
    · rw [hhead]
      exact h.parsed (by simp [hs])
    · exact (h.emitting (by simp [hs])).congr hhead hemitted hevents hstreaming

theorem Published.advance (h : Published seen x) (hx : x.advance = .ok y) : Published seen y := by
  refine run_rule turn_lowers (fun x a => Published seen x → a = .ok y → Published seen y)
    ?_ ?_ x h hx
  · rintro x a ha h rfl
    exact h.stall ha
  · intro x x' a hx ih h
    exact ih (h.turn hx)

theorem Published.emitStreaming (h : Published seen x) (hm : x.streaming = true) :
    Published seen x.emitStreaming ∧ x.emitStreaming.Flushed := by
  by_cases hs : x.state = .head
  · obtain ⟨hhead, hemitted, hbody⟩ := h.fresh hs
    rw [emitStreaming_of_none hhead hbody]
    exact ⟨h, fun _ => ⟨hbody, by simp [hemitted, hhead]⟩⟩
  · obtain ⟨head, hhead⟩ := Option.isSome_iff_exists.mp (h.parsed hs)
    have hout := emitStreaming_of_head hhead
    refine ⟨⟨fun hs' => ?_, fun _ => ?_, fun hd => ?_, fun hd => ?_⟩, fun _ => ?_⟩
    · rw [hout] at hs'
      exact absurd hs' hs
    · rw [hout]
      exact h.parsed hs
    · rw [hout] at hd
      obtain ⟨head', chunks, hhead', hev⟩ := (h.emitting hd).emitStreaming hm (h.parsed hs)
      refine ⟨fun _ => ⟨chunks, ?_, ?_⟩, fun hm' => ?_⟩
      · rw [hev, hout]
        simp [hhead']
      · rw [hout]
        simp
      · rw [hout] at hm'
        simp [hm] at hm'
    · rw [hout] at hd
      have hended := h.ended hd
      obtain ⟨head', chunks, -, hemitted, -⟩ := hended.streamed hm
      have hbody := hended.flushed
      have hsame : x.emitStreaming = x := by
        rw [hout]
        cases x
        simp_all
      rwa [hsame]
    · rw [hout]
      exact ⟨rfl, by simp [hhead]⟩

theorem delivered_append (a b : List Event) : delivered (a ++ b) = delivered a ++ delivered b := by
  simp [delivered]

namespace Session

variable {s t : Session}

/-- The result is told by what has been decoded, when nothing waits to be emitted. -/
theorem result_of_view (hs : Published s.seen s.machine) (hs' : s.machine.Flushed) :
    s.result = if s.view.streaming ∨ s.view.state = .done then
      (s.view.head, s.view.body, decide (s.view.state = .done)) else (none, [], false) := by
  have hhead : s.view.head = s.machine.head := by
    unfold view gist erase
    split <;> rfl
  have hstream : s.view.streaming = s.machine.streaming := by
    unfold view gist erase
    split <;> rfl
  have hbody : s.view.body = delivered s.events ++ s.machine.body := by
    rw [events, delivered_append, List.append_assoc]
    unfold view gist erase
    split <;> rfl
  have hstate : s.view.state = s.machine.state := gist_state _ _
  have hfin : { s.machine with events := [] : ClientExchange }.isFinished =
      decide (s.machine.state = .done) := by simp [isFinished]
  rw [hhead, hstream, hbody, hstate, result, hfin]
  cases hm : s.machine.streaming with
  | true =>
    obtain ⟨hflush, hemitted⟩ := hs' hm
    have hheadOf : headOf s.events = s.machine.head := by
      by_cases hd : s.machine.state = .done
      · obtain ⟨head, chunks, hhead, -, hev⟩ := (hs.ended hd).streamed hm
        rw [events, hev, hhead]
        rfl
      · obtain ⟨chunks, hev, hnil⟩ := (hs.emitting hd).streamed hm
        rw [events, hev, hemitted]
        cases hh : s.machine.head with
        | none =>
          rw [hh] at hemitted
          simp [hnil hemitted, headOf]
        | some head => rfl
    simp [hheadOf, hflush]
  | false =>
    by_cases hd : s.machine.state = .done
    · obtain ⟨head, body, hhead, hev⟩ := (hs.ended hd).buffered hm
      have hev' : s.events = [.response head body] := hev
      simp [hd, hev', hhead, headOf, (hs.ended hd).flushed]
    · have hev : s.events = [] := ((hs.emitting hd).buffered hm).2
      simp [hd, hev, headOf, delivered]

/-- Nothing waits to be emitted, and what was emitted is in order. -/
def Tidy (s : Session) : Prop := Published s.seen s.machine ∧ s.machine.Flushed

theorem tidy_start (method : String) (request : Bytes) (streaming : Bool) :
    (start (build method request streaming)).Tidy :=
  ⟨published_build method request streaming, fun _ => by simp [start, build]⟩

theorem Tidy.poll (h : s.Tidy) (n : Nat) : (s.poll n).Tidy := by
  induction n generalizing s with
  | zero => exact h
  | succ n ih =>
    rw [Session.poll]
    cases he : s.machine.events with
    | nil =>
      simp only [pollEvent, he]
      exact h
    | cons e rest =>
      simp only [pollEvent, he]
      exact ih ⟨h.1.poll he, h.2⟩

theorem Tidy.call (h : s.Tidy) {piece : Bytes × Nat} (hc : Session.call piece s = .ok t) :
    t.Tidy := by
  rw [Session.call] at hc
  cases hi : s.machine.handleInput piece.1 with
  | error e =>
    rw [hi] at hc
    cases hc
  | ok r =>
    rw [hi] at hc
    cases hc
    refine Tidy.poll ?_ piece.2
    unfold handleInput at hi
    split at hi
    · cases hi
      exact h
    · cases hadv : (s.machine.push piece.1).advance with
      | error e =>
        rw [hadv] at hi
        cases hi
      | ok y =>
        rw [hadv] at hi
        cases hi
        have hy := (h.1.push piece.1).advance hadv
        cases hm : y.streaming with
        | true => exact hy.emitStreaming hm
        | false => exact ⟨hy, fun hm' => by simp [hm] at hm'⟩

theorem Tidy.feed (h : s.Tidy) {pieces : List (Bytes × Nat)}
    (hc : Resume.feed Session.call pieces s = .ok t) : t.Tidy := by
  induction pieces generalizing s with
  | nil =>
    cases hc
    exact h
  | cons piece rest ih =>
    rw [Resume.feed] at hc
    cases hcall : s.call piece with
    | error e =>
      rw [hcall] at hc
      cases hc
    | ok s' =>
      rw [hcall] at hc
      exact ih (h.call hcall) hc

theorem Tidy.eof (h : s.Tidy) (hc : s.eof = .ok t) : t.Tidy := by
  unfold Session.eof at hc
  cases hst : s.machine.state with
  | eof =>
    have heof : s.machine.handleEof =
        .ok (finish { s.machine with body := s.machine.body ++ s.machine.rx, rx := [] }) := by
      simp [handleEof, hst]
    rw [heof] at hc
    cases hc
    have hlast : Emitting s.seen
        { s.machine with body := s.machine.body ++ s.machine.rx, rx := [] } :=
      (h.1.emitting (by simp [hst])).congr rfl rfl rfl rfl
    have hhead := h.1.parsed (by simp [hst])
    exact ⟨hlast.published_finish hhead, finish_flushed hhead⟩
  | done =>
    simp only [handleEof, hst] at hc
    cases hc
    exact h
  | head | length n | chunked cs =>
    simp only [handleEof, hst] at hc
    cases hc

theorem result_eq {r r' : Except Error Session} (hview : r.map view = r'.map view)
    (hr : ∀ s, r = .ok s → s.Tidy) (hr' : ∀ s, r' = .ok s → s.Tidy) :
    r.map result = r'.map result := by
  cases r with
  | error e =>
    cases r' with
    | error e' =>
      rw [Except.error.inj hview]
    | ok t => cases hview
  | ok s =>
    cases r' with
    | error e' => cases hview
    | ok t =>
      have hs := hr s rfl
      have ht := hr' t rfl
      have heq : s.view = t.view := Except.ok.inj hview
      simp only [Except.map, result_of_view hs.1 hs.2, result_of_view ht.1 ht.2, heq]

/-- The pieces and the polls between them make no difference to the result. -/
theorem exchange_result {pieces pieces' : List (Bytes × Nat)} {atEof : Bool} (h : s.Tidy)
    (hsame : pieces.flatMap Prod.fst = pieces'.flatMap Prod.fst)
    (hfits : (s.view.push (pieces.flatMap Prod.fst)).Fits)
    (hidle : s.view.advance.map (gist []) = .ok s.view) :
    (s.exchange pieces atEof).map result = (s.exchange pieces' atEof).map result := by
  have hview := feed_view pieces s hfits hidle
  rw [hsame] at hfits hview
  have hviews := hview.trans (feed_view pieces' s hfits hidle).symm
  unfold exchange
  cases hf : feed Session.call pieces s with
  | error e =>
    cases hf' : feed Session.call pieces' s with
    | error e' =>
      rw [hf, hf'] at hviews
      rw [Except.error.inj hviews]
    | ok t' =>
      rw [hf, hf'] at hviews
      cases hviews
  | ok t =>
    cases hf' : feed Session.call pieces' s with
    | error e' =>
      rw [hf, hf'] at hviews
      cases hviews
    | ok t' =>
      have ht := h.feed hf
      have ht' := h.feed hf'
      rw [hf, hf'] at hviews
      have heq : t.view = t'.view := Except.ok.inj hviews
      cases atEof with
      | true => exact result_eq (view_eof heq) (fun _ => ht.eof) (fun _ => ht'.eof)
      | false =>
        refine result_eq hviews (fun u hu => ?_) (fun u hu => ?_)
        · cases hu
          exact ht
        · cases hu
          exact ht'

end Session

end

/-- A stream that fits the buffer as a whole. -/
theorem fits_of_short {x : ClientExchange} (h : x.rx.length ≤ maxHeaderBytes) : x.Fits := by
  intro y hy
  have hlen : y.rx.length ≤ maxHeaderBytes := by
    induction hy with
    | refl => exact h
    | tail _ hturn ih =>
      have hlow := turn_lowers _ _ hturn
      unfold variant at hlow
      split at hlow <;> split at hlow <;> omega
  unfold LineFits
  split
  · intro n hn
    have := (findHeaderEnd_bounds hn).2
    omega
  · intro _ nl hnl
    have := line_lt hnl
    split at this
    · rw [List.length_drop] at this
      omega
    · omega
  · trivial

open Session Text

/-- A response whose lines and head blocks have room in the buffer is
decoded to the same error, or the same head, body and end, in whatever pieces it comes. -/
theorem segmentation_independent (method : String) (request : Bytes) (streaming : Bool)
    (pieces : List (Bytes × Nat)) (atEof : Bool)
    (hfits : ((build method request streaming).push (pieces.flatMap Prod.fst)).Fits) :
    ((start (build method request streaming)).exchange pieces atEof).map result =
      ((start (build method request streaming)).exchange
        [(pieces.flatMap Prod.fst, 0)] atEof).map result := by
  have hview : (start (build method request streaming)).view = build method request streaming := rfl
  refine exchange_result (tidy_start method request streaming) (by simp) ?_ ?_
  · rwa [hview]
  · have hidle : (build method request streaming).advance =
        .ok (build method request streaming) :=
      run_done (Step.waitHead rfl rfl (Nat.zero_le _)).turn_eq
    rw [hview, hidle]
    rfl

/-- A chunked response, one byte at a time or all at once. -/
theorem segmentation_independent_bytewise :
    ((start (new "GET" [])).exchange ((asBytes
        "HTTP/1.1 200 OK\r\nTransfer-Encoding: chunked\r\n\r\n5\r\nhello\r\n0\r\n\r\n").map
          fun b => ([b], 0)) false).map result =
      ((start (new "GET" [])).exchange [(asBytes
        "HTTP/1.1 200 OK\r\nTransfer-Encoding: chunked\r\n\r\n5\r\nhello\r\n0\r\n\r\n", 0)]
          false).map result := by
  have hbytes (w : Bytes) : ((w.map fun b => ([b], 0)).flatMap Prod.fst : Bytes) = w := by
    simp [List.flatMap_map]
  have h := segmentation_independent "GET" [] false ((asBytes
    "HTTP/1.1 200 OK\r\nTransfer-Encoding: chunked\r\n\r\n5\r\nhello\r\n0\r\n\r\n").map
      fun b => ([b], 0)) false (fits_of_short (by decide +kernel))
  rwa [hbytes] at h

end Rsurl.Http1.ClientExchange
