import Rsurl.Net.Wire

/-!
# Telnet

A session sends its input, and reads to the end. Commands are taken out of what is read, and every
option that the server offers or asks for is refused.
-/

namespace Rsurl.Telnet

open Library Text Net

def iac : UInt8 := 255

def dont : UInt8 := 254

def doOption : UInt8 := 253

def wont : UInt8 := 252

def will : UInt8 := 251

def sb : UInt8 := 250

def se : UInt8 := 240

def maxResponseBytes : Nat := 64 * 1024 * 1024

/-- Where the parser is in a command. -/
inductive State where
  | data
  | iac
  | opt (cmd : UInt8)
  | sb
  | sbIac
  deriving DecidableEq, Repr

/-- The parser, and the two buffers it appends to. -/
structure Parser where
  state : State
  out : Bytes
  replies : Bytes
  deriving DecidableEq, Repr

namespace Parser

def new : Parser := ⟨.data, [], []⟩

def push (p : Parser) (b : UInt8) : Parser :=
  match p.state with
  | .data => if b = iac then { p with state := .iac } else { p with out := p.out ++ [b] }
  | .iac =>
    if b = iac then { p with state := .data, out := p.out ++ [iac] }
    else if b ∈ [will, wont, doOption, dont] then { p with state := .opt b }
    else if b = sb then { p with state := .sb }
    else { p with state := .data }
  | .opt cmd =>
    { p with
      state := .data
      replies :=
        if cmd = will then p.replies ++ [iac, dont, b]
        else if cmd = doOption then p.replies ++ [iac, wont, b]
        else p.replies }
  | .sb => if b = iac then { p with state := .sbIac } else p
  | .sbIac => { p with state := if b = se then .data else .sb }

def feed (p : Parser) (input : Bytes) : Parser := input.foldl push p

end Parser

/-- A literal `IAC` is sent twice. -/
def escapeIac (input : Bytes) : Bytes := input.flatMap fun b => if b = iac then [b, iac] else [b]

/-- At most `fuel` reads. -/
def drain : Nat → Parser → Session (Option Bytes)
  | 0, _ => return none
  | fuel + 1, parser => do
    let got ← Session.chunk 8192
    if got = [] then return some parser.out
    let parser := { parser with replies := [] }.feed got
    if parser.replies ≠ [] then Session.send parser.replies
    if maxResponseBytes < parser.out.length then
      Talk.fail (.badResponse s!"telnet: response exceeds {maxResponseBytes} bytes")
    drain fuel parser

def run (fuel : Nat) (url : Http2.Url) (input : Bytes) : Session (Option Bytes) := do
  if url.scheme ≠ "telnet" then Talk.fail (.unsupportedScheme url.scheme)
  let _ ← Session.dial url.host url.port
  if input ≠ [] then Session.send (escapeIac input)
  drain fuel .new

/-! ## What a stream says -/

/-- What a subnegotiation passes over. -/
inductive Skipped : Bytes → Prop where
  | nil : Skipped []
  | byte {b : UInt8} {rest : Bytes} (hb : b ≠ iac) (h : Skipped rest) : Skipped (b :: rest)
  | pair {b : UInt8} {rest : Bytes} (hb : b ≠ se) (h : Skipped rest) : Skipped (iac :: b :: rest)

inductive Item where
  | text (b : UInt8)
  | command (c : UInt8) (hc : c ∉ [iac, will, wont, doOption, dont, sb])
  | option (cmd opt : UInt8) (hcmd : cmd ∈ [will, wont, doOption, dont])
  | sub (body : Bytes) (hbody : Skipped body)

namespace Item

def wire : Item → Bytes
  | text b => escapeIac [b]
  | command c _ => [iac, c]
  | option cmd opt _ => [iac, cmd, opt]
  | sub body _ => [iac, Telnet.sb] ++ body ++ [iac, se]

def data : Item → Bytes
  | text b => [b]
  | _ => []

/-- `WILL` and `DO` are refused; `WONT` and `DONT` say what is so already. -/
def refusal : Item → Bytes
  | option cmd opt _ =>
    if cmd = will then [iac, dont, opt] else if cmd = doOption then [iac, wont, opt] else []
  | _ => []

end Item

/-- The front of an item. -/
inductive Partial : Bytes → Prop where
  | nil : Partial []
  | iac : Partial [iac]
  | option (cmd : UInt8) (hcmd : cmd ∈ [will, wont, doOption, dont]) : Partial [Telnet.iac, cmd]
  | sub (body : Bytes) (hbody : Skipped body) : Partial ([Telnet.iac, sb] ++ body)
  | subIac (body : Bytes) (hbody : Skipped body) :
    Partial ([Telnet.iac, sb] ++ body ++ [Telnet.iac])

/-! ## The parser -/

theorem Skipped.append {a b : Bytes} (ha : Skipped a) (hb : Skipped b) : Skipped (a ++ b) := by
  induction ha with
  | nil => exact hb
  | byte hne _ ih => exact .byte hne ih
  | pair hne _ ih => exact .pair hne ih

/-- Every stream is items, and the front of one. -/
theorem exists_items (stream : Bytes) :
    ∃ (items : List Item) (tail : Bytes),
      stream = items.flatMap Item.wire ++ tail ∧ Partial tail := by
  induction stream using List.reverseRecOn with
  | nil => exact ⟨[], [], rfl, .nil⟩
  | append_singleton stream b ih =>
    obtain ⟨items, tail, rfl, htail⟩ := ih
    -- the byte ends an item, or is one more of its front
    have hdone (item : Item) (hwire : tail ++ [b] = item.wire) :
        ∃ (items' : List Item) (tail' : Bytes),
          items.flatMap Item.wire ++ tail ++ [b] = items'.flatMap Item.wire ++ tail' ∧
            Partial tail' :=
      ⟨items ++ [item], [], by simp [← hwire], .nil⟩
    have hmore (h : Partial (tail ++ [b])) :
        ∃ (items' : List Item) (tail' : Bytes),
          items.flatMap Item.wire ++ tail ++ [b] = items'.flatMap Item.wire ++ tail' ∧
            Partial tail' :=
      ⟨items, tail ++ [b], by simp, h⟩
    cases htail with
    | nil =>
      by_cases hb : b = iac
      · exact hmore (hb ▸ .iac)
      · exact hdone (.text b) (by simp [Item.wire, escapeIac, hb])
    | iac =>
      by_cases hb : b = iac
      · exact hdone (.text iac) (by simp [Item.wire, escapeIac, hb])
      by_cases hopt : b ∈ [will, wont, doOption, dont]
      · exact hmore (.option b hopt)
      by_cases hsb : b = sb
      · exact hmore (hsb ▸ .sub [] .nil)
      · refine hdone (.command b ?_) rfl
        simp only [List.mem_cons, List.not_mem_nil, or_false, not_or] at hopt ⊢
        exact ⟨hb, hopt.1, hopt.2.1, hopt.2.2.1, hopt.2.2.2, hsb⟩
    | option cmd hcmd => exact hdone (.option cmd b hcmd) rfl
    | sub body hbody =>
      by_cases hb : b = iac
      · exact hmore (hb ▸ .subIac body hbody)
      · have h := Partial.sub (body ++ [b]) (hbody.append (.byte hb .nil))
        exact hmore (by simpa using h)
    | subIac body hbody =>
      by_cases hb : b = se
      · exact hdone (.sub body hbody) (by simp [Item.wire, hb])
      · have h := Partial.sub (body ++ [iac, b]) (hbody.append (.pair hb .nil))
        exact hmore (by simpa using h)

namespace Parser

variable {p : Parser}

theorem feed_append (p : Parser) (a b : Bytes) : p.feed (a ++ b) = (p.feed a).feed b :=
  List.foldl_append

theorem feed_cons (p : Parser) (b : UInt8) (rest : Bytes) :
    p.feed (b :: rest) = (p.push b).feed rest := rfl

theorem feed_skipped (hstate : p.state = .sb) {body : Bytes} (h : Skipped body) :
    p.feed body = p := by
  obtain ⟨state, out, replies⟩ := p
  obtain rfl : state = .sb := hstate
  induction h with
  | nil => rfl
  | byte hb _ ih =>
    rw [feed_cons]
    simpa [push, hb] using ih
  | pair hb _ ih =>
    rw [feed_cons, feed_cons]
    simpa [push, hb] using ih

theorem feed_item (hstate : p.state = .data) (i : Item) :
    p.feed i.wire = { p with out := p.out ++ i.data, replies := p.replies ++ i.refusal } := by
  obtain ⟨state, out, replies⟩ := p
  obtain rfl : state = .data := hstate
  cases i with
  | text b =>
    by_cases hb : b = iac <;>
      simp [Item.wire, escapeIac, feed, push, hb, Item.data, Item.refusal]
  | command c hc =>
    simp only [List.mem_cons, List.not_mem_nil, or_false, not_or] at hc
    simp [Item.wire, feed, push, hc, Item.data, Item.refusal]
  | option cmd opt hcmd =>
    have hne : cmd ≠ iac := by rintro rfl; exact absurd hcmd (by decide)
    simp only [Item.wire, feed, push, Item.data, Item.refusal, List.foldl_cons, List.foldl_nil,
      if_pos, if_neg hne, if_pos hcmd, List.append_nil]
    split_ifs <;> simp
  | sub body hbody =>
    rw [Item.wire, feed_append, feed_append]
    have hopen : feed ⟨.data, out, replies⟩ [iac, Telnet.sb] = ⟨.sb, out, replies⟩ := rfl
    rw [hopen, feed_skipped rfl hbody]
    simp [feed, push, Item.data, Item.refusal]

theorem feed_items (hstate : p.state = .data) (items : List Item) :
    p.feed (items.flatMap Item.wire) = { p with
      out := p.out ++ items.flatMap Item.data
      replies := p.replies ++ items.flatMap Item.refusal } := by
  induction items generalizing p with
  | nil => simp [feed]
  | cons i items ih =>
    have hrest := @ih ⟨p.state, p.out ++ i.data, p.replies ++ i.refusal⟩ hstate
    rw [List.flatMap_cons, feed_append, feed_item hstate, hrest]
    simp

/-- The front of an item gives nothing yet. -/
theorem feed_partial (hstate : p.state = .data) {tail : Bytes} (h : Partial tail) :
    (p.feed tail).out = p.out ∧ (p.feed tail).replies = p.replies := by
  obtain ⟨state, out, replies⟩ := p
  obtain rfl : state = .data := hstate
  have hopen : feed ⟨.data, out, replies⟩ [iac, Telnet.sb] = ⟨.sb, out, replies⟩ := rfl
  cases h with
  | nil => exact ⟨rfl, rfl⟩
  | iac => exact ⟨rfl, rfl⟩
  | option cmd hcmd =>
    have hne : cmd ≠ iac := by rintro rfl; exact absurd hcmd (by decide)
    simp [feed, push, hcmd, hne]
  | sub body hbody =>
    rw [feed_append, hopen, feed_skipped rfl hbody]
    exact ⟨rfl, rfl⟩
  | subIac body hbody =>
    rw [feed_append, feed_append, hopen, feed_skipped rfl hbody]
    exact ⟨rfl, rfl⟩

def fresh (state : State) : Parser := ⟨state, [], []⟩

/-- What was there before is kept, and does not matter to what comes. -/
theorem feed_eq (p : Parser) (input : Bytes) :
    p.feed input = ⟨((fresh p.state).feed input).state, p.out ++ ((fresh p.state).feed input).out,
      p.replies ++ ((fresh p.state).feed input).replies⟩ := by
  induction input using List.reverseRecOn with
  | nil => simp [feed, fresh]
  | append_singleton input b ih =>
    rw [feed_append, feed_append, ih]
    generalize (fresh p.state).feed input = q
    obtain ⟨state, out, replies⟩ := q
    cases state <;> simp only [feed, push, List.foldl_cons, List.foldl_nil] <;> split_ifs <;> simp

end Parser

/-! ## Sessions -/

/-- A turn of the loop that is not the last one. -/
theorem drain_turn {fuel : Nat} {p : Parser} {got : Bytes} {evs : List Event} {out : Bytes}
    (hgot : got ≠ [])
    (h : (drain (fuel + 1) p).Run (⟨.chunk 8192, .ok got⟩ :: evs) (.ok (some out))) :
    ∃ before after, evs = before ++ after ∧ taken before = [] ∧
      (written before).flatten = (({ p with replies := [] } : Parser).feed got).replies ∧
      (({ p with replies := [] } : Parser).feed got).out.length ≤ maxResponseBytes ∧
      (drain fuel (({ p with replies := [] } : Parser).feed got)).Run after (.ok (some out)) := by
  simp only [drain, Talk.run_bind_ok, Session.run_chunk] at h
  obtain ⟨got', _, rest, hevs, rfl, h⟩ := h
  cases hevs
  rw [if_neg hgot] at h
  generalize ({ p with replies := [] } : Parser).feed got = q at h ⊢
  have hcap {t : List Event} (h : (if maxResponseBytes < q.out.length then do
      Talk.fail (.badResponse s!"telnet: response exceeds {maxResponseBytes} bytes")
      drain fuel q else drain fuel q : Session (Option Bytes)).Run t (.ok (some out))) :
      q.out.length ≤ maxResponseBytes ∧ (drain fuel q).Run t (.ok (some out)) := by
    split_ifs at h with hlong
    · exact absurd h.2 (by simp)
    · exact ⟨Nat.not_lt.mp hlong, h⟩
  by_cases hreplies : q.replies = []
  · rw [if_neg (not_not.mpr hreplies)] at h
    exact ⟨[], rest, rfl, rfl, by simp [hreplies, written], hcap h⟩
  · rw [if_pos hreplies, Talk.run_bind_ok] at h
    obtain ⟨u, before, after, rfl, hsend, h⟩ := h
    obtain rfl := Session.run_send.mp hsend
    exact ⟨_, after, rfl, rfl, by simp [written], hcap h⟩

/-- What a loop that succeeds has read is what the parser was fed, and what it wrote is what that
asks for. -/
theorem drain_ok {fuel : Nat} {p : Parser} {evs : List Event} {out : Bytes}
    (hcap : p.out.length ≤ maxResponseBytes) (h : (drain fuel p).Run evs (.ok (some out))) :
    out = (p.feed (taken evs)).out ∧ out.length ≤ maxResponseBytes ∧
      (written evs).flatten = ((Parser.fresh p.state).feed (taken evs)).replies := by
  induction fuel generalizing p evs with
  | zero =>
    obtain ⟨-, h⟩ := h
    cases h
  | succ fuel ih =>
    obtain ⟨x, rest, rfl, hx⟩ := h
    cases x with
    | error e =>
      obtain ⟨-, h⟩ := hx
      cases h
    | ok got =>
      by_cases hgot : got = []
      · obtain rfl := hgot
        obtain ⟨rfl, h⟩ := hx
        obtain rfl := Option.some.inj (Except.ok.inj h)
        exact ⟨rfl, hcap, rfl⟩
      · have hturn : (drain (fuel + 1) p).Run (⟨.chunk 8192, .ok got⟩ :: rest) (.ok (some out)) :=
          ⟨.ok got, rest, rfl, hx⟩
        obtain ⟨before, after, rfl, hbefore, hwritten, hq, hrun⟩ := drain_turn hgot hturn
        obtain ⟨hout, hlen, hreplies⟩ := ih hq hrun
        have htaken : taken (⟨.chunk 8192, .ok got⟩ :: (before ++ after)) = got ++ taken after := by
          show got ++ taken (before ++ after) = _
          simp only [taken, List.flatMap_append] at hbefore ⊢
          rw [hbefore, List.nil_append]
        have hcat : (written (⟨.chunk 8192, .ok got⟩ :: (before ++ after))).flatten =
            (written before).flatten ++ (written after).flatten := by
          show (written (before ++ after)).flatten = _
          rw [written, List.filterMap_append, List.flatten_append]
          rfl
        have hp := p.feed_eq got
        have hq := Parser.feed_eq { p with replies := [] } got
        rw [htaken, hcat, hwritten, hreplies, Parser.feed_append, Parser.feed_append]
        generalize (Parser.fresh p.state).feed got = q at hp hq ⊢
        refine ⟨?_, hlen, ?_⟩
        · rw [hout, hp, hq, Parser.feed_eq, Parser.feed_eq ⟨q.state, _, p.replies ++ _⟩]
        · rw [hq, q.feed_eq, List.nil_append]

section World

variable {w : Wire}

/-- A connection that brings what it brings, and takes what it is given. -/
structure Sound (w : Wire) : Prop where
  reads : ∀ r ∈ w.side.reads, r.isData
  sends : w.side.sends = []

theorem Sound.exec_send (h : Sound w) (bytes : Bytes) :
    (Session.send bytes).exec Wire.answer w = .ok () w := by
  obtain ⟨peers, buffer, ⟨reads, sends⟩, secure, session, data⟩ := w
  obtain rfl : sends = [] := h.sends
  rfl

/-- A read brings some of what is to come, unless there is nothing. -/
theorem Sound.exec_chunk (h : Sound w) {n : Nat} (hn : 0 < n) :
    ∃ got w', (Session.chunk n).exec Wire.answer w = .ok got w' ∧ Sound w' ∧
      unread w.side.reads = got ++ unread w'.side.reads ∧
      (got = [] → unread w.side.reads = []) := by
  obtain ⟨peers, buffer, ⟨reads, sends⟩, secure, session, data⟩ := w
  obtain rfl : sends = [] := h.sends
  cases reads with
  | nil => exact ⟨[], _, rfl, ⟨by simp [Wire.answer, readChunk], rfl⟩, rfl, fun _ => rfl⟩
  | cons r reads =>
    cases r with
    | failed e => exact absurd (h.reads _ (.head _)) (by simp [Framing.Read.isData])
    | data first more =>
      refine ⟨_, _, rfl, ⟨fun r hr => ?_, rfl⟩, (readChunk_ok rfl).2, ?_⟩
      · simp only [Wire.answer, readChunk, putBack] at hr
        split at hr
        · exact h.reads r (.tail _ hr)
        · rcases List.mem_cons.mp hr with rfl | hr
          · rfl
          · exact h.reads r (.tail _ hr)
      · intro hgot
        simp only [List.take_eq_nil_iff, reduceCtorEq, or_false] at hgot
        omega

/-- How a loop ends is told by the bytes alone. -/
theorem exec_drain {fuel : Nat} {p : Parser} (h : Sound w)
    (hfuel : (unread w.side.reads).length < fuel) (hcap : p.out.length ≤ maxResponseBytes) :
    ((drain fuel p).exec Wire.answer w).result =
      if maxResponseBytes < (p.feed (unread w.side.reads)).out.length then
        .error (.badResponse s!"telnet: response exceeds {maxResponseBytes} bytes")
      else .ok (some (p.feed (unread w.side.reads)).out) := by
  induction fuel generalizing p w with
  | zero => omega
  | succ fuel ih =>
    obtain ⟨got, w', hexec, hsound, hunread, hend⟩ := h.exec_chunk (show 0 < 8192 by omega)
    rw [drain, Talk.exec_bind, hexec, Outcome.ok_andThen]
    by_cases hgot : got = []
    · rw [hend hgot, if_pos hgot]
      exact (if_neg (Nat.not_lt.mpr hcap)).symm
    rw [if_neg hgot, hunread, Parser.feed_append]
    -- the replies are sent, and do not matter to what comes
    have hout : (({ p with replies := [] } : Parser).feed got).out = (p.feed got).out := by
      rw [Parser.feed_eq, p.feed_eq]
    have hfed (t : Bytes) : ((({ p with replies := [] } : Parser).feed got).feed t).out =
        ((p.feed got).feed t).out := by
      rw [← Parser.feed_append, ← Parser.feed_append, Parser.feed_eq, p.feed_eq]
    generalize ({ p with replies := [] } : Parser).feed got = q at hout hfed ⊢
    have hshort : (unread w'.side.reads).length < fuel := by
      have hpos := List.length_pos_iff.mpr hgot
      rw [hunread, List.length_append] at hfuel
      omega
    have hgrows : q.out.length ≤ (q.feed (unread w'.side.reads)).out.length := by
      rw [q.feed_eq, List.length_append]
      exact Nat.le_add_right _ _
    rw [← hfed]
    by_cases hlong : maxResponseBytes < q.out.length
    · simp only [if_pos hlong, if_pos (hlong.trans_le hgrows)]
      split_ifs
      · rw [Talk.exec_bind, hsound.exec_send]
        rfl
      · rfl
    · simp only [if_neg hlong]
      rw [← ih hsound hshort (Nat.not_lt.mp hlong)]
      split_ifs
      · rw [Talk.exec_bind, hsound.exec_send]
        rfl
      · rfl

end World

/-! ## The whole -/

theorem escapeIac_eq (input : Bytes) :
    escapeIac input = (input.map Item.text).flatMap Item.wire := by
  simp [escapeIac, Item.wire, List.flatMap_map]

/-- A refusal is an option that is not answered. -/
theorem refusals_eq (items : List Item) :
    ∃ refused : List Item, items.flatMap Item.refusal = refused.flatMap Item.wire ∧
      refused.flatMap Item.data = [] ∧ refused.flatMap Item.refusal = [] := by
  induction items with
  | nil => exact ⟨[], rfl, rfl, rfl⟩
  | cons i items ih =>
    obtain ⟨refused, hwire, hdata, hrefusal⟩ := ih
    rw [List.flatMap_cons, hwire]
    cases i with
    | option cmd opt hcmd =>
      have hne : doOption ≠ will := by decide
      by_cases hwill : cmd = will
      · refine ⟨.option dont opt (by decide) :: refused, ?_, hdata, hrefusal⟩
        simp [Item.refusal, Item.wire, hwill]
      by_cases hdo : cmd = doOption
      · refine ⟨.option wont opt (by decide) :: refused, ?_, hdata, hrefusal⟩
        simp [Item.refusal, Item.wire, hdo, hne]
      · exact ⟨refused, by simp [Item.refusal, hwill, hdo], hdata, hrefusal⟩
    | text | command | sub => exact ⟨refused, rfl, hdata, hrefusal⟩

theorem run_eq {url : Http2.Url} (hscheme : url.scheme = "telnet") (fuel : Nat) (input : Bytes) :
    run fuel url input = Session.dial url.host url.port >>= fun _ =>
      if input ≠ [] then Session.send (escapeIac input) >>= fun _ => drain fuel .new
      else drain fuel .new := by
  rw [run, if_neg (not_not.mpr hscheme)]

theorem run_ok {fuel : Nat} {url : Http2.Url} {input : Bytes} {evs : List Event} {out : Bytes}
    (hscheme : url.scheme = "telnet") (h : (run fuel url input).Run evs (.ok (some out))) :
    out = (Parser.new.feed (taken evs)).out ∧ out.length ≤ maxResponseBytes ∧
      (written evs).flatten = escapeIac input ++ (Parser.new.feed (taken evs)).replies := by
  rw [run_eq hscheme, Talk.run_bind_ok] at h
  obtain ⟨peers, before, after, rfl, ⟨x, rest, rfl, hdial⟩, h⟩ := h
  obtain ⟨rfl, -⟩ := Talk.run_ofExcept.mp hdial
  have htaken : taken ([⟨.dial url.host url.port, x⟩] ++ after) = taken after := rfl
  have hwritten : written ([⟨.dial url.host url.port, x⟩] ++ after) = written after := rfl
  rw [htaken, hwritten]
  by_cases hinput : input = []
  · rw [if_neg (not_not.mpr hinput)] at h
    rw [hinput]
    exact drain_ok (Nat.zero_le _) h
  · rw [if_pos hinput, Talk.run_bind_ok] at h
    obtain ⟨u, before, evs, rfl, hsend, h⟩ := h
    obtain rfl := Session.run_send.mp hsend
    obtain ⟨hout, hlen, hreplies⟩ := drain_ok (Nat.zero_le _) h
    exact ⟨hout, hlen, congrArg (escapeIac input ++ ·) hreplies⟩

theorem exec_run {fuel : Nat} {url : Http2.Url} (hscheme : url.scheme = "telnet") (input : Bytes)
    {w : Wire} {peers : IpAddr × IpAddr} (hw : Sound w) (hpeers : w.peers = .ok peers) :
    (run fuel url input).exec Wire.answer w = (drain fuel .new).exec Wire.answer w := by
  have hdial : (Session.dial url.host url.port).exec Wire.answer w = .ok peers w := by
    simp [Session.dial, Talk.request, Talk.exec, Wire.answer, hpeers, Talk.ofExcept]
  rw [run_eq hscheme, Talk.exec_bind, hdial, Outcome.ok_andThen]
  split_ifs
  · rw [Talk.exec_bind, hw.exec_send, Outcome.ok_andThen]
  · rfl

/-- However a stream comes in, its text is returned, and what is sent is the input and a refusal of
each option: the other side reads just the input from it, and has nothing to answer. -/
theorem session_exact {url : Http2.Url} (hscheme : url.scheme = "telnet") (input : Bytes) :
    (∀ fuel evs out, (run fuel url input).Run evs (.ok (some out)) →
      ∃ (items : List Item) (tail : Bytes), taken evs = items.flatMap Item.wire ++ tail ∧
        Partial tail ∧ out = items.flatMap Item.data ∧ out.length ≤ maxResponseBytes ∧
        (written evs).flatten = escapeIac input ++ items.flatMap Item.refusal ∧
        Parser.new.feed (written evs).flatten = ⟨.data, input, []⟩) ∧
    ∀ (items : List Item) (tail : Bytes) (w : Wire) (peers : IpAddr × IpAddr) (fuel : Nat),
      Partial tail → Sound w → w.peers = .ok peers →
      unread w.side.reads = items.flatMap Item.wire ++ tail →
      (unread w.side.reads).length < fuel →
      ((run fuel url input).exec Wire.answer w).result =
        if maxResponseBytes < (items.flatMap Item.data).length then
          .error (.badResponse s!"telnet: response exceeds {maxResponseBytes} bytes")
        else .ok (some (items.flatMap Item.data)) := by
  have hread (items : List Item) {tail : Bytes} (htail : Partial tail) :
      (Parser.new.feed (items.flatMap Item.wire ++ tail)).out = items.flatMap Item.data ∧
        (Parser.new.feed (items.flatMap Item.wire ++ tail)).replies =
          items.flatMap Item.refusal := by
    rw [Parser.feed_append, Parser.feed_items rfl]
    exact Parser.feed_partial rfl htail
  refine ⟨fun fuel evs out h => ?_, fun items tail w peers fuel htail hw hpeers hbytes hfuel => ?_⟩
  · obtain ⟨hout, hlen, hwritten⟩ := run_ok hscheme h
    obtain ⟨items, tail, hstream, htail⟩ := exists_items (taken evs)
    rw [hstream] at hout hwritten
    rw [(hread items htail).1] at hout
    rw [(hread items htail).2] at hwritten
    refine ⟨items, tail, hstream, htail, hout, hlen, hwritten, ?_⟩
    obtain ⟨refused, hwire, hdata, hrefusal⟩ := refusals_eq items
    rw [hwritten, hwire, escapeIac_eq, ← List.flatMap_append, Parser.feed_items rfl,
      List.flatMap_append, List.flatMap_append, hdata, hrefusal]
    simp [Parser.new, List.flatMap_map, Item.data, Item.refusal]
  · rw [exec_run hscheme input hw hpeers, exec_drain hw hfuel (Nat.zero_le _), hbytes,
      (hread items htail).1]

/-- Two letters, an option that is offered, and a command that is cut off, in two reads. -/
def sampleWire : Wire := .delivering [.data 72 [255], .data 251 [1, 105, 255]]

theorem session_exact_sample :
    ((run 7 ⟨"telnet", none, "h", 23, ""⟩ [255]).exec Wire.answer sampleWire).result =
      .ok (some [72, 105]) :=
  (@session_exact ⟨"telnet", none, "h", 23, ""⟩ rfl [255]).2
    [.text 72, .option will 1 (by decide), .text 105] [iac] sampleWire _ 7 .iac
    ⟨by decide, rfl⟩ rfl (by decide) (by decide)

end Rsurl.Telnet
