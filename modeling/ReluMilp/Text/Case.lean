import ReluMilp.Text.LowerTable
import ReluMilp.Text.WordTable

/-!
# Lower case

* `lowerChar` — the small letter of a character, itself if there is none;
* `lower` — a text in small letters. Two letters depend on more than themselves: a capital I with a
  dot becomes two characters, and a capital sigma at the end of a word takes its final form.
-/

namespace ReluMilp

/-- The small letter of a character. -/
def lowerChar (c : Char) : Char :=
  let n := c.toNat
  match lowerRuns.find? fun (first, last, step, _) => first ≤ n ∧ n ≤ last ∧ (n - first) % step = 0 with
  | some (_, _, _, shift) => Char.ofNat ((n : Int) + shift).toNat
  | none => c

/-- Whether a character lies in one of some ranges. -/
def inRanges (ranges : List (Nat × Nat)) (c : Char) : Bool :=
  ranges.any fun (first, last) => first ≤ c.toNat ∧ c.toNat ≤ last

/-- Marks say nothing about where a word ends. -/
def isWordMark (c : Char) : Bool := inRanges wordMarkRanges c

/-- Whether a word comes first, marks aside: something with a case. -/
def meetsWord (cs : List Char) : Bool :=
  (cs.dropWhile isWordMark).head?.any (inRanges casedRanges)

/-- The small letters of a text; `before` holds the characters already read, the last one first. A
sigma is final if a word comes before it and none after it. -/
def lowerChars (before : List Char) : List Char → List Char
  | [] => []
  | c :: rest =>
    let small :=
      if c.toNat = 304 then [Char.ofNat 105, Char.ofNat 775]
      else if c.toNat = 931 then
        [Char.ofNat (if meetsWord before && !meetsWord rest then 962 else 963)]
      else [lowerChar c]
    small ++ lowerChars (c :: before) rest

/-- A text in small letters. -/
def lower (s : String) : String := String.ofList (lowerChars [] s.toList)

end ReluMilp
