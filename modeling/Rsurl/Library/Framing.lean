import Rsurl.Library.Outcome

/-!
# Reading units off a stream

A parser that is handed the front of a stream says that a unit ends there, that there is none, or
that it needs more. `readUnit` buffers reads until it knows; a read that fails leaves everything
buffered, so that the next call carries on. If the parser's answers do not change with more input,
then only the bytes that are unread matter, not the reads that bring them.
-/

namespace Rsurl.Library.Framing

variable {α β ε ι : Type*}

/-- What one read of the stream gives: at least one byte, or a failure. -/
inductive Read (ι β : Type*) where
  | data (first : β) (more : List β)
  | failed (failure : ι)
  deriving DecidableEq, Repr

def Read.bytes : Read ι β → List β
  | data first more => first :: more
  | failed _ => []

def Read.isData : Read ι β → Bool
  | data _ _ => true
  | failed _ => false

/-- The bytes that are buffered and those still to be read. -/
def unread (rx : List β) (reads : List (Read ι β)) : List β := rx ++ reads.flatMap Read.bytes

/-- How many of the reads fail. -/
def failures (reads : List (Read ι β)) : Nat := (reads.filter fun r => !r.isData).length

theorem failures_le {reads reads' : List (Read ι β)} (h : reads' <:+ reads) :
    failures reads' ≤ failures reads := (h.sublist.filter _).length_le

theorem failures_lt {i : ι} {reads reads' : List (Read ι β)} (h : .failed i :: reads' <:+ reads) :
    failures reads' < failures reads := failures_le h

/-- How units are told apart: the parser, the error of a stream that ends in the middle of a unit
(or before one), and the error that a failing read gives. -/
structure Format (α β ε ι : Type*) where
  parse : List β → Except ε (Option (α × Nat))
  eof : ε
  lift : ι → ε

/-- The next unit. The stream ends after the last read. -/
def readUnit (fmt : Format α β ε ι) (rx : List β) (reads : List (Read ι β)) :
    Outcome ε (List β × List (Read ι β)) α :=
  match fmt.parse rx with
  | .error e => .error e (rx, reads)
  | .ok (some (a, n)) => .ok a (rx.drop n, reads)
  | .ok none => match reads with
    | [] => .error fmt.eof (rx, [])
    | .failed i :: rest => .error (fmt.lift i) (rx, rest)
    | .data first more :: rest => readUnit fmt (rx ++ first :: more) rest

/-- The parser does not take back what it said when there is more input. -/
structure Format.Stable (fmt : Format α β ε ι) : Prop where
  pos : ∀ b a n, fmt.parse b = .ok (some (a, n)) → 0 < n ∧ n ≤ b.length
  found : ∀ b a n w, fmt.parse b = .ok (some (a, n)) → fmt.parse (b ++ w) = .ok (some (a, n))
  refused : ∀ b e w, fmt.parse b = .error e → fmt.parse (b ++ w) = .error e

/-- How a call ends, told from the unread bytes alone but for failing reads. -/
inductive Reads (fmt : Format α β ε ι) (rx : List β) (reads : List (Read ι β)) :
    Outcome ε (List β × List (Read ι β)) α → Prop where
  | found {a : α} {n : Nat} {rx' : List β} {reads' : List (Read ι β)}
      (hp : fmt.parse (unread rx reads) = .ok (some (a, n)))
      (hu : unread rx' reads' = (unread rx reads).drop n) (hs : reads' <:+ reads) :
      Reads fmt rx reads (.ok a (rx', reads'))
  | refused {e : ε} {rx' : List β} {reads' : List (Read ι β)}
      (hp : fmt.parse (unread rx reads) = .error e) (hu : unread rx' reads' = unread rx reads)
      (hs : reads' <:+ reads) : Reads fmt rx reads (.error e (rx', reads'))
  | ended {rx' : List β} (hp : fmt.parse (unread rx reads) = .ok none)
      (hu : rx' = unread rx reads) : Reads fmt rx reads (.error fmt.eof (rx', []))
  | failed {i : ι} {rx' : List β} {reads' : List (Read ι β)}
      (hu : unread rx' reads' = unread rx reads) (hs : .failed i :: reads' <:+ reads) :
      Reads fmt rx reads (.error (fmt.lift i) (rx', reads'))

variable {fmt : Format α β ε ι}

theorem unread_data (rx : List β) (first : β) (more : List β) (rest : List (Read ι β)) :
    unread rx (.data first more :: rest) = unread (rx ++ first :: more) rest := by
  simp [unread, Read.bytes]

theorem readUnit_reads (hp : fmt.Stable) (rx : List β) (reads : List (Read ι β)) :
    Reads fmt rx reads (readUnit fmt rx reads) := by
  induction reads generalizing rx with
  | nil =>
    have hrx : unread rx ([] : List (Read ι β)) = rx := by simp [unread]
    rw [readUnit.eq_def]
    cases h : fmt.parse rx with
    | error e => exact .refused (by rw [hrx, h]) rfl List.suffix_rfl
    | ok found =>
      cases found with
      | none => exact .ended (by rw [hrx, h]) hrx.symm
      | some u =>
        refine .found (by rw [hrx, h]) ?_ List.suffix_rfl
        simp [unread]
  | cons r rest ih =>
    rw [readUnit.eq_def]
    cases h : fmt.parse rx with
    | error e => exact .refused (hp.refused rx e _ h) rfl List.suffix_rfl
    | ok found =>
      cases found with
      | some u =>
        obtain ⟨a, n⟩ := u
        refine .found (hp.found rx a n _ h) ?_ List.suffix_rfl
        rw [unread, unread, List.drop_append_of_le_length (hp.pos rx a n h).2]
      | none =>
        cases r with
        | failed i => exact .failed (by simp [unread, Read.bytes]) List.suffix_rfl
        | data first more =>
          have hu := unread_data rx first more rest
          have hrest := ih (rx ++ first :: more)
          simp only
          generalize readUnit fmt (rx ++ first :: more) rest = r at hrest ⊢
          cases hrest with
          | found hp hu' hs => exact .found (hu ▸ hp) (hu ▸ hu') (hs.trans (List.suffix_cons _ _))
          | refused hp hu' hs =>
            exact .refused (hu ▸ hp) (hu ▸ hu') (hs.trans (List.suffix_cons _ _))
          | ended hp hu' => exact .ended (hu ▸ hp) (hu ▸ hu')
          | failed hu' hs => exact .failed (hu ▸ hu') (hs.trans (List.suffix_cons _ _))

end Rsurl.Library.Framing
