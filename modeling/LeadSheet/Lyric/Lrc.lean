import LeadSheet.Lyric.Digits
import LeadSheet.Lyric.Word
import LeadSheet.Text.Blank
import LeadSheet.Text.Line

/-!
# LRC lyrics

A line is stamped by tags such as `[01:02.50]`, anywhere in it. Without its tags it is the text of
one word for each of them; a line without text has none. Words come in the order of their start.
-/

namespace LeadSheet.Lyric
set_option autoImplicit false

variable {α : Type} [Scalar α]

/-- What closes a tag after its seconds: nothing, or a fraction of one to three digits. -/
def scanTagEnd? : List Char → Option (α × List Char)
  | ']' :: cs => some (0, cs)
  | '.' :: cs | ':' :: cs => do
    let (digits, rest) ← scanField? 1 3 cs
    let rest ← scanChar? ']' rest
    some (fraction digits, rest)
  | _ => none

def scanTag? (cs : List Char) : Option (α × List Char) := do
  let rest ← scanChar? '[' cs
  let (minutes, rest) ← scanField? 1 3 rest
  let rest ← scanChar? ':' rest
  let (seconds, rest) ← scanField? 2 2 rest
  let (parts, rest) ← scanTagEnd? rest
  some (whole minutes * 60 + whole seconds + parts, rest)

theorem length_scanTagEnd?_lt {cs rest : List Char} {parts : α}
    (h : scanTagEnd? cs = some (parts, rest)) : rest.length < cs.length := by
  have field {ds : List Char} (hField : (do
      let (digits, rest) ← scanField? 1 3 ds
      let rest ← scanChar? ']' rest
      some ((fraction digits : α), rest)) = some (parts, rest)) : rest.length < ds.length := by
    simp only [Option.bind_eq_bind, Option.bind_eq_some_iff, Option.some.injEq,
      Prod.mk.injEq] at hField
    obtain ⟨⟨digits, after⟩, hDigits, tail, hTail, _, rfl⟩ := hField
    have := length_scanField?_le hDigits
    have : tail.length < after.length := length_scanChar?_lt hTail
    omega
  unfold scanTagEnd? at h
  split at h
  · simp_all
  · have := field h
    simp
    omega
  · have := field h
    simp
    omega
  · simp at h

theorem length_scanTag?_lt {cs rest : List Char} {time : α}
    (h : scanTag? cs = some (time, rest)) : rest.length < cs.length := by
  simp only [scanTag?, Option.bind_eq_bind, Option.bind_eq_some_iff, Option.some.injEq,
    Prod.mk.injEq] at h
  obtain ⟨r1, h1, ⟨minutes, r2⟩, h2, r3, h3, ⟨seconds, r4⟩, h4, ⟨parts, r5⟩, h5, _, rfl⟩ := h
  have := length_scanChar?_lt h1
  have := length_scanField?_le h2
  have : r3.length < r2.length := length_scanChar?_lt h3
  have := length_scanField?_le h4
  have : r5.length < r4.length := length_scanTagEnd?_lt h5
  change r5.length < cs.length
  omega

def splitTags (cs : List Char) : List α × List Char :=
  match cs with
  | [] => ([], [])
  | c :: more =>
    match _h : scanTag? (c :: more) with
    | some (time, rest) =>
      let (times, text) := splitTags rest
      (time :: times, text)
    | none =>
      let (times, text) := splitTags more
      (times, c :: text)
termination_by cs.length
decreasing_by
  · exact length_scanTag?_lt _h
  · exact Nat.lt_succ_self _

def lineWords (line : List Char) : List (Word α) :=
  let split := splitTags line
  let lyric := Text.trim split.2
  if lyric.isEmpty then []
  else split.1.map fun time => ⟨String.ofList lyric, time, none, none⟩

def readLrc (text : String) : List (Word α) :=
  ((Text.lines text.toList).flatMap lineWords).mergeSort fun v w =>
    Scalar.atMost v.start w.start

end LeadSheet.Lyric
