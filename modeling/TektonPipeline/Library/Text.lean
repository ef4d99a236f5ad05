import Mathlib.Algebra.Ring.Nat
import Mathlib.Data.List.Basic

namespace TektonPipeline.Text
open List

/-- The pieces of a text between the occurrences of one separator; the empty text has one
piece, itself. -/
def splitOn (sep : Char) : List Char → List (List Char)
  | [] => [[]]
  | c :: cs =>
    if c = sep then [] :: splitOn sep cs
    else match splitOn sep cs with
      | [] => [[c]]
      | w :: ws => (c :: w) :: ws

def trimPrefix (p s : List Char) : List Char :=
  if p.isPrefixOf s then s.drop p.length else s

def trimSuffix (p s : List Char) : List Char :=
  if p.isSuffixOf s then s.take (s.length - p.length) else s

/-- Scan a text from the left. `m` gives the length of a match that starts here, if there
is one; a match is handed to `emit` and the scan goes on behind it. -/
def scan {α : Type} (m : List Char → Option Nat) (emit : List Char → List α)
    (pass : Char → List α) : Nat → List Char → List α
  | _, [] => []
  | k + 1, _ :: cs => scan m emit pass k cs
  | 0, c :: cs =>
    match m (c :: cs) with
    | some n => emit ((c :: cs).take n) ++ scan m emit pass (n - 1) cs
    | none => pass c ++ scan m emit pass 0 cs

/-- The leftmost matches of `m`, none overlapping another. -/
def findAll (m : List Char → Option Nat) (s : List Char) : List (List Char) :=
  scan m (fun w => [w]) (fun _ => []) 0 s

/-- The text with every match of `m` rewritten by `f`, in one pass. -/
def rewriteAll (m : List Char → Option Nat) (f : List Char → List Char)
    (s : List Char) : List Char :=
  scan m f (fun c => [c]) 0 s

theorem rewriteAll_none {f : List Char → List Char} (s : List Char) :
    rewriteAll (fun _ => none) f s = s := by
  unfold rewriteAll
  induction s with
  | nil => rfl
  | cons c s ih => simp [scan, ih]

def literal (old : List Char) (s : List Char) : Option Nat :=
  if old.isPrefixOf s then some old.length else none

def contains (sub s : List Char) : Bool := !(findAll (literal sub) s).isEmpty

def replaceAll (old new s : List Char) : List Char :=
  rewriteAll (literal old) (fun _ => new) s

/-- The length of the shortest start of the text that ends in `pat`, read up to the end of
the line. -/
def lazyUntil (pat : List Char) : List Char → Option Nat
  | [] => none
  | c :: cs =>
    if pat.isPrefixOf (c :: cs) then some pat.length
    else if c = '\n' then none
    else (lazyUntil pat cs).map (· + 1)

def andThen (m₁ m₂ : List Char → Option Nat) (s : List Char) : Option Nat :=
  (m₁ s).bind fun n => (m₂ (s.drop n)).map (n + ·)

/-- The first matcher, or the second where the first finds nothing. -/
def orElse (m₁ m₂ : List Char → Option Nat) (s : List Char) : Option Nat :=
  match m₁ s with
  | some n => some n
  | none => m₂ s

def one (p : Char → Bool) : List Char → Option Nat
  | [] => none
  | c :: _ => if p c then some 1 else none

/-- As many characters of a class as there are, and at least `least`. -/
def many (least : Nat) (p : Char → Bool) (s : List Char) : Option Nat :=
  let n := (s.takeWhile p).length
  if least ≤ n then some n else none

def optional (m : List Char → Option Nat) (s : List Char) : Option Nat :=
  some ((m s).getD 0)

theorem le_of_literal {old s : List Char} {n : Nat} (h : literal old s = some n) :
    old.length ≤ n := by
  unfold literal at h
  split at h <;> simp_all

theorem le_of_andThen {m₁ m₂ : List Char → Option Nat} {k n : Nat} {s : List Char}
    (hm : ∀ {t i}, m₁ t = some i → k ≤ i) (h : andThen m₁ m₂ s = some n) : k ≤ n := by
  unfold andThen at h
  cases h₁ : m₁ s with
  | none => simp [h₁] at h
  | some i =>
    have hi := hm h₁
    cases h₂ : m₂ (s.drop i) with
    | none => simp [h₁, h₂] at h
    | some j =>
      simp [h₁, h₂] at h
      omega

/-- Matches do not overlap, so together they are no longer than the text. -/
theorem scan_length_sum_le (m : List Char → Option Nat) (k : Nat) (s : List Char) :
    ((scan m (fun w => [w]) (fun _ => []) k s).map List.length).sum ≤ s.length - k := by
  induction s generalizing k with
  | nil => simp [scan]
  | cons c cs ih =>
    cases k with
    | succ k => simpa [scan] using ih k
    | zero =>
      cases h : m (c :: cs) with
      | none =>
        have := ih 0
        simp [scan, h] at this ⊢
        omega
      | some n =>
        have := ih (n - 1)
        simp [scan, h] at this ⊢
        omega

/-- What is found is the start that `m` takes of an end of the text. -/
theorem exists_of_mem_findAll {m : List Char → Option Nat} {s w : List Char}
    (hw : w ∈ findAll m s) : ∃ c t n, c :: t <:+ s ∧ m (c :: t) = some n ∧ w = (c :: t).take n := by
  unfold findAll at hw
  generalize 0 = k at hw
  induction s generalizing k with
  | nil => simp [scan] at hw
  | cons c cs ih =>
    have hlater : ∀ k, w ∈ scan m (fun w => [w]) (fun _ => []) k cs →
        ∃ d t n, d :: t <:+ c :: cs ∧ m (d :: t) = some n ∧ w = (d :: t).take n := by
      intro k hk
      obtain ⟨d, t, n, hsuffix, htaken⟩ := ih k hk
      exact ⟨d, t, n, hsuffix.trans (suffix_cons c cs), htaken⟩
    cases k with
    | succ k => exact hlater k (by simpa [scan] using hw)
    | zero =>
      cases h : m (c :: cs) with
      | none => exact hlater 0 (by simpa [scan, h] using hw)
      | some n =>
        simp only [scan, h, cons_append, nil_append, mem_cons] at hw
        rcases hw with rfl | hw
        · exact ⟨c, cs, n, suffix_rfl, h, rfl⟩
        · exact hlater _ hw

/-- A text that is itself one of its matches has no other behind it. -/
theorem findAll_self {m : List Char → Option Nat}
    (hm : ∀ {t n}, m t = some n → 0 < n) {s : List Char} {before after : List (List Char)}
    (h : findAll m s = before ++ s :: after) : after = [] := by
  have hsum := scan_length_sum_le m 0 s
  have hall : ∀ w ∈ after, w ≠ [] := by
    intro w hw
    have hmem : w ∈ findAll m s := by simp [h, hw]
    obtain ⟨c, t, n, -, hn, rfl⟩ := exists_of_mem_findAll hmem
    simp [Nat.ne_of_gt (hm hn)]
  rw [show scan m (fun w => [w]) (fun _ => []) 0 s = findAll m s from rfl, h] at hsum
  cases after with
  | nil => rfl
  | cons w ws =>
    have hw := length_pos_iff.mpr (hall w (by simp))
    simp at hsum
    omega

theorem toDigits_inj {i j : Nat} (h : Nat.toDigits 10 i = Nat.toDigits 10 j) : i = j := by
  rw [← Nat.ofDigitChars_ten_toDigits (n := i), h, Nat.ofDigitChars_ten_toDigits]

theorem toString_inj {i j : Nat} (h : toString i = toString j) : i = j := by
  rw [Nat.toString_eq_ofList_toDigits, Nat.toString_eq_ofList_toDigits] at h
  exact toDigits_inj (String.ofList_injective h)

theorem isDigit_of_mem_toString {i : Nat} {c : Char} (hc : c ∈ (toString i).toList) :
    c.isDigit = true := by
  rw [Nat.toString_eq_ofList_toDigits, String.toList_ofList] at hc
  exact Nat.isDigit_of_mem_toDigits (by decide) (by decide) hc

/-- A function with values as long as its arguments is not constant. -/
theorem exists_ne_of_length_le {f : String → String} (h : ∀ w, w.length ≤ (f w).length) :
    ∃ w, f w ≠ f "" := by
  refine ⟨String.ofList (List.replicate ((f "").length + 1) 'x'), fun heq => ?_⟩
  have hlen := h (String.ofList (List.replicate ((f "").length + 1) 'x'))
  rw [heq, String.length_ofList, length_replicate] at hlen
  exact absurd hlen (Nat.not_succ_le_self _)

/-- The bytes that encode a text. -/
def utf8 (s : String) : List UInt8 := s.toByteArray.data.toList

end TektonPipeline.Text
