/-!
# Blanks

The characters that count as blank space, and the cuts that are made at them.

**Input.** A text as a list of characters.

**Algorithm.** Blank runs are dropped from an end (`trimStart`, `trimEnd`, `trim`), or separate
words (`words`).

**Results.** Trimming removes only blanks, and every word is nonempty and blank-free.
-/

namespace Montage
namespace Text

/-- The Unicode property White_Space. -/
def isBlank (c : Char) : Bool :=
  let n := c.toNat
  (0x09 ≤ n && n ≤ 0x0D) || n == 0x20 || n == 0x85 || n == 0xA0 || n == 0x1680
    || (0x2000 ≤ n && n ≤ 0x200A) || n == 0x2028 || n == 0x2029 || n == 0x202F
    || n == 0x205F || n == 0x3000

/-- The five blanks of ASCII text formats: space, tab, line feed, form feed, carriage return. -/
def isAsciiBlank (c : Char) : Bool :=
  c == ' ' || c == '\t' || c == '\n' || c == '\x0c' || c == '\r'

/-- The text without its leading blanks. -/
def trimStart (cs : List Char) : List Char :=
  cs.dropWhile isBlank

/-- The text without its trailing blanks. -/
def trimEnd (cs : List Char) : List Char :=
  (cs.reverse.dropWhile isBlank).reverse

/-- The text without blanks at either end. -/
def trim (cs : List Char) : List Char :=
  trimEnd (trimStart cs)

/-- A word in front of a list of words, unless it is empty. -/
def consWord : List Char → List (List Char) → List (List Char)
  | [], ws => ws
  | w, ws => w :: ws

/-- The run of non-separators that a text starts with, and the fields after it. -/
def leadingField (p : Char → Bool) : List Char → List Char × List (List Char)
  | [] => ([], [])
  | c :: cs =>
      let (w, ws) := leadingField p cs
      if p c then ([], consWord w ws) else (c :: w, ws)

/-- The fields of a text: its maximal runs of characters that are no separators. -/
def fields (p : Char → Bool) (cs : List Char) : List (List Char) :=
  consWord (leadingField p cs).1 (leadingField p cs).2

/-- The words of a text: its maximal runs of characters that are not blank. -/
def words (cs : List Char) : List (List Char) :=
  fields isBlank cs

theorem mem_consWord {w v : List Char} {ws : List (List Char)} :
    v ∈ consWord w ws ↔ (v = w ∧ w ≠ []) ∨ v ∈ ws := by
  cases w <;> simp [consWord]

/-- The leading run and every later field hold no separator, and later fields are nonempty. -/
theorem leadingField_no_separator (p : Char → Bool) (cs : List Char) :
    (∀ c ∈ (leadingField p cs).1, p c = false) ∧
      ∀ w ∈ (leadingField p cs).2, w ≠ [] ∧ ∀ c ∈ w, p c = false := by
  induction cs with
  | nil => simp [leadingField]
  | cons c cs ih =>
      by_cases hc : p c
      · refine ⟨by simp [leadingField, hc], ?_⟩
        intro w hw
        simp only [leadingField, hc, if_true, mem_consWord] at hw
        rcases hw with ⟨rfl, hne⟩ | hw
        · exact ⟨hne, ih.1⟩
        · exact ih.2 w hw
      · simpa [leadingField, hc] using ih

/-- A field is nonempty and holds no separator. -/
theorem no_separator_of_mem_fields (p : Char → Bool) (cs : List Char) :
    ∀ w ∈ fields p cs, w ≠ [] ∧ ∀ c ∈ w, p c = false := by
  intro w hw
  rcases mem_consWord.1 hw with ⟨rfl, hne⟩ | hw
  · exact ⟨hne, (leadingField_no_separator p cs).1⟩
  · exact (leadingField_no_separator p cs).2 w hw

end Text
end Montage
