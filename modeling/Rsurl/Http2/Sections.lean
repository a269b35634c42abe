import Rsurl.Http2.Dispatch

/-!
# Field sections

Everything a decoded field section can do to its connection. A section that is accepted is an
interim head, the final head or the trailers; a section that is refused resets its stream. The
`content-length` of the final head is compared with the DATA received whenever the peer ends the
stream.
-/

namespace Rsurl.Http2

open Library Hpack

/-- The response has no body to compare `content-length` with. -/
def Stream.bodiless (s : Stream) : Bool :=
  s.headRequest || s.finalStatus == some 204 || s.finalStatus == some 304

/-- The DATA received so far agrees with `content-length`: exactly once the stream has ended, as
an upper bound before. -/
def Stream.LengthMatches (s : Stream) : Prop :=
  s.bodiless = true ∨ ∀ n, s.expectedLen = some n →
    s.received ≤ n ∧ (s.endStreamRecv = true → s.received = n)

namespace Connection

variable {c c' c'' : Connection} {id : Nat}

/-- A reset of stream `id` by the client, after a change `c₁` of that stream at most. -/
inductive Refused (id : Nat) : Connection → Connection → Prop where
  | plain (c : Connection) : Refused id c ((c.closeStream id).sendReset id)
  | after {c : Connection} {s s' : Stream} (hs : c.streams[id]? = some s)
      (e : s.Edit false false s') :
      Refused id c (((c.setStream id s').closeStream id).sendReset id)

theorem checkContentLength_spec (c : Connection) (id : Nat) :
    (c.checkContentLength id).Post
      (fun _ c' => c' = c ∧ ∀ s, c.streams[id]? = some s → s.LengthMatches)
      (fun _ c' => c' = (c.closeStream id).sendReset id) := by
  unfold checkContentLength
  split
  · rename_i hs
    exact ⟨rfl, fun s h => by simp [hs] at h⟩
  · rename_i s hs
    split
    · rename_i hbodiless
      refine ⟨rfl, fun t ht => ?_⟩
      rw [hs] at ht
      cases ht
      exact .inl hbodiless
    · split
      · rename_i hlen
        refine ⟨rfl, fun t ht => ?_⟩
        rw [hs] at ht
        cases ht
        exact .inr fun n hn => by simp [hlen] at hn
      · rename_i expected hlen
        split
        · rfl
        · rename_i hmatch
          refine ⟨rfl, fun t ht => ?_⟩
          rw [hs] at ht
          cases ht
          refine .inr fun n hn => ?_
          rw [hlen] at hn
          cases hn
          grind

/-- What an accepted section does. -/
inductive Completed (id : Nat) (decoded : List Header) : Connection → Connection → Prop where
  | gone {c : Connection} (hs : c.streams[id]? = none) : Completed id decoded c c
  | trailers {c : Connection} {s : Stream} (hs : c.streams[id]? = some s)
      (final : s.finalStatus.isSome) (ended : s.endStreamRecv = true)
      (hlen : s.LengthMatches) : Completed id decoded c c
  | interim {c : Connection} {s : Stream} (hs : c.streams[id]? = some s)
      (final : s.finalStatus = none) (ended : s.endStreamRecv = false)
      (few : s.interimCount < maxInterimResponses) :
      Completed id decoded c (c.setStream id { s with interimCount := s.interimCount + 1 })
  | head {c : Connection} {s s' : Stream} {info : ResponseFieldInfo}
      (hs : c.streams[id]? = some s) (final : s.finalStatus = none)
      (hinfo : validateResponseFields decoded false = .ok info) (status : 200 ≤ info.status)
      (hs' : s' = { s with
        finalStatus := some info.status
        expectedLen := info.contentLength
        responseHeaders := some decoded })
      (hlen : s.endStreamRecv = true → s'.LengthMatches) :
      Completed id decoded c (c.setStream id s')

theorem completeHeaderBlock_spec (c : Connection) (id : Nat) (decoded : List Header) :
    (c.completeHeaderBlock id decoded).Post (fun _ c' => Completed id decoded c c')
      (fun _ c' => Refused id c c') := by
  unfold completeHeaderBlock
  split
  · exact .gone ‹_›
  · rename_i s hs
    split
    · rename_i hfinal
      unfold completeTrailers
      split
      · exact .plain c
      · rename_i hend
        split
        · exact .plain c
        · refine (checkContentLength_spec c id).imp ?_ ?_
          · rintro _ c' ⟨rfl, hlen⟩
            exact .trailers hs hfinal (by simpa using hend) (hlen s hs)
          · rintro e c' rfl
            exact .plain c
    · rename_i hfinal
      have hnone : s.finalStatus = none := by simpa using hfinal
      split
      · exact .plain c
      · rename_i info hinfo
        split
        · unfold completeInterim
          split
          · exact .plain c
          · rename_i hend
            split
            · exact .plain c
            · simp only
              split
              · exact .after hs ⟨rfl, rfl, rfl, rfl, fun _ => rfl, fun _ => rfl, fun _ => rfl⟩
              · rename_i hfew
                exact .interim hs hnone (by simpa using hend) (by omega)
        · rename_i hstatus
          unfold completeHead
          simp only
          split
          · refine (checkContentLength_spec _ id).imp ?_ ?_
            · rintro _ c' ⟨rfl, hlen⟩
              exact .head hs hnone hinfo (by omega) rfl fun _ => hlen _ (by simp)
            · rintro e c' rfl
              exact .after hs ⟨rfl, rfl, rfl, rfl, fun _ => rfl, fun _ => rfl, fun _ => rfl⟩
          · rename_i hend
            exact .head hs hnone hinfo (by omega) rfl fun h => absurd h hend

/-- A finished block: the whole block went through the decoder, and its section was accepted
unless it is ignored. -/
theorem finishBlock_ok {block : Bytes} {discard : Bool} {outcome : DispatchOutcome}
    (h : c.finishBlock id block discard = .ok outcome c') :
    ∃ decoded d, c.decoder.decodeBlock block = .ok decoded d ∧
      outcome = c'.outcomeFor id ∧
      (discard = true ∧ c' = { c with decoder := d, madeProgress := true } ∨
        discard = false ∧
          Completed id decoded { c with decoder := d, madeProgress := true } c') := by
  unfold finishBlock decodeBlock at h
  obtain ⟨decoded, c₁, hdec, h⟩ := Outcome.andThen_eq_ok.mp h
  obtain ⟨_, c₂, hdone, h⟩ := Outcome.andThen_eq_ok.mp h
  cases h
  cases hd : c.decoder.decodeBlock block with
  | error e d =>
    rw [hd] at hdec
    cases hdec
  | ok fields d =>
    rw [hd] at hdec
    cases hdec
    refine ⟨decoded, d, rfl, rfl, ?_⟩
    cases discard with
    | true =>
      cases hdone
      exact .inl ⟨rfl, rfl⟩
    | false =>
      refine .inr ⟨rfl, ?_⟩
      have hspec := completeHeaderBlock_spec { c with decoder := d, madeProgress := true } id decoded
      simp only [Bool.false_eq_true, if_false] at hdone
      rw [hdone] at hspec
      exact hspec

theorem Completed.madeProgress {decoded : List Header} (h : Completed id decoded c c') :
    c'.madeProgress = c.madeProgress := by
  cases h <;> rfl

end Connection

end Rsurl.Http2
