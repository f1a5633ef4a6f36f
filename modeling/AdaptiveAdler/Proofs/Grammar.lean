import AdaptiveAdler.Settings.Force
import AdaptiveAdler.Text.Number
import Mathlib.Data.List.DropRight
import Mathlib.Data.List.Forall2
import Mathlib.Data.Nat.Digits.Defs

/-! How a setting is written.

A setting is a text with blanks around its core (`IsCore`). The core is a word for a kernel, in
any case of its ASCII letters (`Force.IsNamed`), or the decimal digits of a number, with a plus
sign in front or without (`Number.Denotes`). The texts that are read are those of this grammar and
no others: `isCore_iff`, `Force.ofText?_eq_some_iff`, `Number.read?_eq_some_iff`. -/
namespace AdaptiveAdler

/-! ### Blanks -/

/-- What is left of a text once the blanks around it are taken away. -/
structure IsCore (core text : List Char) : Prop where
  split : ∃ front back, text = front ++ core ++ back ∧ (∀ c ∈ front, isBlank c = true) ∧
    ∀ c ∈ back, isBlank c = true
  first : ∀ c rest, core = c :: rest → isBlank c = false
  last : ∀ c start, core = start ++ [c] → isBlank c = false

theorem isCore_trim (text : List Char) : IsCore (trim text) text := by
  have htrim : trim text = (text.dropWhile isBlank).rdropWhile isBlank := rfl
  have hsplit := List.rdropWhile_append_rtakeWhile (p := isBlank) (l := text.dropWhile isBlank)
  rw [← htrim] at hsplit
  refine ⟨⟨text.takeWhile isBlank, (text.dropWhile isBlank).rtakeWhile isBlank, ?_,
    fun _ => List.mem_takeWhile_imp, fun _ => List.mem_rtakeWhile_imp⟩,
    fun c rest h => ?_, fun c start h => ?_⟩
  · rw [List.append_assoc, hsplit, List.takeWhile_append_dropWhile]
  · have hfirst := List.head?_dropWhile_not isBlank text
    rw [← hsplit, h] at hfirst
    exact hfirst
  · have hlast := List.rdropWhile_last_not isBlank (text.dropWhile isBlank)
    rw [← htrim] at hlast
    simpa [h] using hlast

/-- A text without blanks is its own core. -/
theorem isCore_self {text : List Char} (h : ∀ c ∈ text, isBlank c = false) : IsCore text text where
  split := ⟨[], [], (List.append_nil text).symm, fun _ hc => absurd hc List.not_mem_nil,
    fun _ hc => absurd hc List.not_mem_nil⟩
  first c _ htext := h c (htext ▸ List.mem_cons_self)
  last c start htext := h c (htext ▸ List.mem_append_right start (List.mem_singleton_self c))

theorem IsCore.trim_eq {core text : List Char} (h : IsCore core text) : trim text = core := by
  obtain ⟨⟨front, back, rfl, hfront, hback⟩, hfirst, hlast⟩ := h
  rw [trim, List.append_assoc, List.dropWhile_append_of_pos hfront]
  rcases List.eq_nil_or_concat' core with rfl | ⟨start, d, rfl⟩
  · rw [List.nil_append, List.dropWhile_eq_nil_iff.mpr hback]
    rfl
  · have hd := hlast d start rfl
    have hkept : (start ++ [d] ++ back).dropWhile isBlank = start ++ [d] ++ back := by
      cases start with
      | nil => exact List.dropWhile_cons_of_neg (by simp [hd])
      | cons c rest => exact List.dropWhile_cons_of_neg (by simp [hfirst c _ rfl])
    have hback' : ∀ c ∈ back.reverse, isBlank c = true := by simpa using hback
    rw [hkept, List.reverse_append, List.dropWhile_append_of_pos hback', List.reverse_append,
      List.reverse_singleton, List.singleton_append,
      List.dropWhile_cons_of_neg (by simp [hd]), List.reverse_cons, List.reverse_reverse]

theorem isCore_iff {core text : List Char} : IsCore core text ↔ trim text = core :=
  ⟨IsCore.trim_eq, fun h => h ▸ isCore_trim text⟩

/-! ### Words -/

/-- The same character, or one ASCII letter in its two cases. -/
def SameLetter (c d : Char) : Prop :=
  c = d ∨ ('A' ≤ c ∧ c ≤ 'Z' ∧ d.toNat = c.toNat + 32) ∨
    ('A' ≤ d ∧ d ≤ 'Z' ∧ c.toNat = d.toNat + 32)

theorem toNat_toLower (c : Char) :
    c.toLower.toNat = if 'A' ≤ c ∧ c ≤ 'Z' then c.toNat + 32 else c.toNat := by
  unfold Char.toLower
  split
  · next h =>
    have hupper : 'A' ≤ c ∧ c ≤ 'Z' := h
    have hle : c.toNat ≤ 90 := h.2
    rw [if_pos hupper]
    show (c.val + 32).toNat = c.toNat + 32
    rw [UInt32.toNat_add]
    exact Nat.mod_eq_of_lt (by show c.toNat + 32 < 2 ^ 32; omega)
  · next h =>
    have hother : ¬ ('A' ≤ c ∧ c ≤ 'Z') := h
    rw [if_neg hother]

theorem sameLetter_iff {c d : Char} : SameLetter c d ↔ c.toLower = d.toLower := by
  have hle {a b : Char} : a ≤ b ↔ a.toNat ≤ b.toNat := Iff.rfl
  have hA : 'A'.toNat = 65 := rfl
  have hZ : 'Z'.toNat = 90 := rfl
  rw [SameLetter, ← Char.toNat_inj, ← Char.toNat_inj, toNat_toLower, toNat_toLower]
  simp only [hle, hA, hZ]
  split <;> split <;> omega

namespace Force

/-- The words for a request. -/
def aliases : Force → List String
  | auto => ["auto"]
  | portable => ["portable", "scalar"]
  | vector .sse2 => ["sse2"]
  | vector .avx2 => ["avx2"]
  | vector .avx512bw => ["avx512", "avx512bw", "avx-512"]

/-- The text is a word for the request, in any case. -/
def IsNamed (f : Force) (text : List Char) : Prop :=
  ∃ spelling ∈ f.aliases, List.Forall₂ SameLetter text spelling.toList

theorem foldCase_eq_iff {a b : List Char} :
    foldCase a = foldCase b ↔ List.Forall₂ SameLetter a b := by
  have hsame : SameLetter = fun c d => c.toLower = d.toLower := by
    funext c d
    exact propext sameLetter_iff
  rw [hsame, foldCase, foldCase, ← List.forall₂_eq_eq_eq, List.forall₂_map_left_iff,
    List.forall₂_map_right_iff]

theorem mem_spellings_iff {spelling : String} {f : Force} :
    (spelling, f) ∈ spellings ↔ spelling ∈ f.aliases := by
  rcases f with _ | _ | e
  · simp [spellings, aliases]
  · simp [spellings, aliases]
  · cases e <;> simp [spellings, aliases]

/-- Every spelling is in lower case, and stands for one request. -/
theorem find?_spellings : ∀ entry ∈ spellings, foldCase entry.1.toList = entry.1.toList ∧
    spellings.find? (fun other => other.1.toList == entry.1.toList) = some entry := by
  decide

theorem not_isNamed_nil (f : Force) : ¬ f.IsNamed [] := by
  rintro ⟨spelling, hmem, hsame⟩
  have hblank : ∀ entry ∈ spellings, entry.1.toList ≠ [] := by decide
  exact hblank _ (mem_spellings_iff.mpr hmem) (List.forall₂_nil_left_iff.mp hsame)

theorem ofText?_eq_some_iff {text : List Char} {f : Force} :
    ofText? text = some f ↔ f.IsNamed (trim text) := by
  rw [ofText?, Option.map_eq_some_iff]
  constructor
  · rintro ⟨⟨spelling, f⟩, hfind, rfl⟩
    have hmem := List.mem_of_find?_eq_some hfind
    have hfound := List.find?_some hfind
    have hfold : spelling.toList = foldCase (trim text) := eq_of_beq hfound
    refine ⟨spelling, mem_spellings_iff.mp hmem, foldCase_eq_iff.mp ?_⟩
    rw [(find?_spellings _ hmem).1, hfold]
  · rintro ⟨spelling, hmem, hsame⟩
    obtain ⟨hlower, hfind⟩ := find?_spellings _ (mem_spellings_iff.mpr hmem)
    rw [foldCase_eq_iff.mpr hsame, hlower]
    exact ⟨_, hfind, rfl⟩

end Force

/-! ### Numbers -/

namespace Number

/-- The number that a text denotes: one or more ASCII digits, after a plus sign or none. -/
def Denotes (text : List Char) (n : Nat) : Prop :=
  ∃ sign digits, text = sign ++ digits ∧ (sign = [] ∨ sign = ['+']) ∧ digits ≠ [] ∧
    (∀ c ∈ digits, '0' ≤ c ∧ c ≤ '9') ∧
    n = Nat.ofDigits 10 (digits.reverse.map fun c => c.toNat - '0'.toNat)

theorem ofDigits_eq (digits : List Char) :
    ofDigits digits = Nat.ofDigits 10 (digits.reverse.map fun c => c.toNat - '0'.toNat) := by
  rw [Nat.ofDigits_eq_foldr, List.foldr_map, List.foldr_reverse, ofDigits]
  congr
  funext n c
  simp only [Nat.cast_id, Nat.add_comm]

theorem isDigit_iff {c : Char} : c.isDigit = true ↔ '0' ≤ c ∧ c ≤ '9' := by
  rw [Char.isDigit, Bool.and_eq_true, decide_eq_true_eq, decide_eq_true_eq]
  rfl

theorem isDigit_of_mem {digits : List Char} (h : ∀ c ∈ digits, '0' ≤ c ∧ c ≤ '9') :
    digits.all Char.isDigit = true :=
  List.all_eq_true.mpr fun c hc => isDigit_iff.mpr (h c hc)

/-- What stands behind the sign of a number. -/
theorem denotes_iff {text : List Char} {n : Nat} : Denotes text n ↔
    dropSign text ≠ [] ∧ (dropSign text).all Char.isDigit = true ∧
      ofDigits (dropSign text) = n := by
  constructor
  · rintro ⟨sign, digits, rfl, hsign, hne, hdigits, rfl⟩
    have hdrop : dropSign (sign ++ digits) = digits := by
      rcases hsign with rfl | rfl
      · -- A plus sign is no digit, so none is taken away here.
        cases digits with
        | nil => rfl
        | cons c rest =>
          have hc : c ≠ '+' := by
            rintro rfl
            exact absurd (hdigits '+' List.mem_cons_self) (by decide)
          simp [dropSign, hc]
      · rfl
    rw [hdrop, ofDigits_eq]
    exact ⟨hne, isDigit_of_mem hdigits, rfl⟩
  · rintro ⟨hne, hdigits, rfl⟩
    have hsplit : ∃ sign, text = sign ++ dropSign text ∧ (sign = [] ∨ sign = ['+']) := by
      unfold dropSign
      split
      · exact ⟨['+'], rfl, .inr rfl⟩
      · exact ⟨[], rfl, .inl rfl⟩
    obtain ⟨sign, htext, hsign⟩ := hsplit
    exact ⟨sign, dropSign text, htext, hsign, hne,
      fun c hc => isDigit_iff.mp (List.all_eq_true.mp hdigits c hc), ofDigits_eq _⟩

theorem read?_eq_some_iff {bound n : Nat} {text : List Char} :
    read? bound text = some n ↔ Denotes text n ∧ n < bound := by
  have hguard : ((dropSign text).isEmpty || !(dropSign text).all Char.isDigit) = true ↔
      ¬ (dropSign text ≠ [] ∧ (dropSign text).all Char.isDigit = true) := by
    rw [Bool.or_eq_true, List.isEmpty_iff, Bool.not_eq_true', not_and_or, not_ne_iff,
      Bool.not_eq_true]
  rw [denotes_iff, read?, ← and_assoc]
  by_cases hdigits : dropSign text ≠ [] ∧ (dropSign text).all Char.isDigit = true
  · rw [if_neg (mt hguard.mp (not_not_intro hdigits)), Option.ite_none_right_eq_some,
      Option.some.injEq, and_iff_right hdigits, and_comm]
    exact and_congr_right fun heq => by rw [heq]
  · rw [if_pos (hguard.mpr hdigits)]
    exact iff_of_false (Option.some_ne_none n).symm fun h => hdigits h.1.1

/-- No character of a number is blank. -/
theorem Denotes.isCore {text : List Char} {n : Nat} (h : Denotes text n) : IsCore text text := by
  obtain ⟨sign, digits, rfl, hsign, -, hdigits, -⟩ := h
  refine isCore_self fun c hc => ?_
  rcases List.mem_append.mp hc with hmem | hmem
  · rcases hsign with rfl | rfl
    · cases hmem
    · rw [List.mem_singleton.mp hmem]
      decide
  · have hrange : 48 ≤ c.toNat ∧ c.toNat ≤ 57 := hdigits c hmem
    simp only [isBlank, blankRanges, List.any_cons, List.any_nil, Bool.or_false,
      Bool.or_eq_false_iff, Bool.and_eq_false_iff, decide_eq_false_iff_not]
    omega

/-- Every number can be written, with a sign or without and with any zeros in front. -/
theorem denotes_toDigits {sign : List Char} (hsign : sign = [] ∨ sign = ['+']) (zeros n : Nat) :
    Denotes (sign ++ (List.replicate zeros '0' ++ Nat.toDigits 10 n)) n := by
  have hdigits : ∀ c ∈ List.replicate zeros '0' ++ Nat.toDigits 10 n, c.isDigit = true := by
    intro c hc
    rcases List.mem_append.mp hc with hzero | hdigit
    · rw [List.eq_of_mem_replicate hzero]
      decide
    · exact Nat.isDigit_of_mem_toDigits (by decide) (by decide) hdigit
  refine ⟨sign, _, rfl, hsign, List.append_ne_nil_of_right_ne_nil _ Nat.toDigits_ne_nil,
    fun c hc => isDigit_iff.mp (hdigits c hc), ?_⟩
  rw [← ofDigits_eq]
  show n = Nat.ofDigitChars 10 (List.replicate zeros '0' ++ Nat.toDigits 10 n) 0
  rw [Nat.ofDigitChars_append, Nat.ofDigitChars_replicate_zero, Nat.mul_zero,
    Nat.ofDigitChars_toDigits (by decide) (by decide)]

end Number

end AdaptiveAdler
