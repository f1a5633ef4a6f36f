import AdaptiveAdler.Proofs.Agreement
import AdaptiveAdler.Proofs.Choice
import AdaptiveAdler.Selection.Inventory

/-! The lists of kernels agree.

Which kernels can run is written down in four places: in the ladder that a kernel is chosen
from, among the names to show, among the kernels to check and in the look-up by name. On
every capability set they tell of the same kernels (`inventories_agree`): the names shown
are those of the kernels checked, in the opposite order and with the definition in front;
the widest kernel checked is the one chosen; and a word finds a kernel if it is one of the
words for a kernel shown, and finds that one. The words are listed here once more, apart from
what the look-up searches (`Kernel.words`). -/
namespace AdaptiveAdler

/-! ### Names of kernels -/

namespace Kernel
variable {k other : Kernel} {called : String}

theorem mem_all (k : Kernel) : k ∈ all := by
  cases k with
  | bytewise | portable => decide
  | vector e => cases e <;> decide

/-- The words for a kernel: in front the name it is shown by, then those that may be used
instead. -/
def words : Kernel → List String
  | bytewise => ["reference", "reference/bytewise"]
  | portable => ["portable/unroll16", "portable"]
  | vector .sse2 => ["x86_64/sse2", "sse2"]
  | vector .avx2 => ["x86_64/avx2", "avx2"]
  | vector .avx512bw => ["x86_64/avx512bw", "avx512", "avx512bw"]

theorem head?_words (k : Kernel) : k.words.head? = some k.name := by
  cases k with
  | bytewise | portable => rfl
  | vector e => cases e <;> rfl

theorem name_mem_words (k : Kernel) : k.name ∈ k.words := List.mem_of_head? k.head?_words

/-- A kernel answers to the words for it and to nothing else. -/
theorem answersTo_iff : k.answersTo called = true ↔ called ∈ k.words := by
  have hwords : k.words = k.name :: k.aliases := by
    cases k with
    | bytewise | portable => rfl
    | vector e => cases e <;> rfl
  rw [answersTo, Bool.or_eq_true, beq_iff_eq, List.contains_iff_mem, hwords, List.mem_cons]

/-- No word is for two kernels. -/
theorem eq_of_mem_words (h : called ∈ k.words) (hother : called ∈ other.words) : k = other := by
  -- There are five kernels with two or three words each.
  have hdistinct : ∀ k ∈ all, ∀ other ∈ all, ∀ called ∈ k.words, called ∈ other.words →
      k = other := by decide
  exact hdistinct k k.mem_all other other.mem_all called h hother

theorem name_injective : Function.Injective name := by
  intro k other h
  exact eq_of_mem_words k.name_mem_words (h ▸ other.name_mem_words)

theorem mem_words_of_named? (h : named? called = some k) : called ∈ k.words := by
  have hfits := List.find?_some h
  exact answersTo_iff.mp hfits

theorem named?_eq_some_iff : named? called = some k ↔ called ∈ k.words := by
  refine ⟨mem_words_of_named?, fun h => ?_⟩
  have hsome : (named? called).isSome = true :=
    List.find?_isSome.mpr ⟨k, k.mem_all, answersTo_iff.mpr h⟩
  obtain ⟨found, hfound⟩ := Option.isSome_iff_exists.mp hsome
  rw [eq_of_mem_words h (mem_words_of_named? hfound)]
  exact hfound

end Kernel

/-! ### The lists -/

namespace Inventory
variable (caps : Caps)

theorem filter_forced : (forced caps).filter (· ≠ .portable) =
    (Extension.all.reverse.filter fun e => caps.has e.requires).map Kernel.vector := by
  rw [forced, Extension.allowed_forcible, List.filter_append,
    List.filter_eq_self.mpr fun k hk => ?_]
  · exact List.append_nil _
  · obtain ⟨e, -, rfl⟩ := List.mem_map.mp hk
    rfl

theorem available_eq : available caps = [Kernel.bytewise.name, Kernel.portable.name] ++
    ((forced caps).filter (· ≠ .portable)).reverse.map Kernel.name := by
  rw [available, Extension.allowed_shown, filter_forced, ← List.map_reverse, List.filter_reverse,
    List.reverse_reverse, List.map_map]
  rfl

theorem head?_forced : (forced caps).head? = some ((widest? caps).getD .portable) := by
  rw [forced, Extension.allowed_forcible, List.head?_append, List.head?_map, List.head?_filter,
    widest?_eq]
  exact Option.or_some

theorem vector_mem_filter_forced {e : Extension} :
    Kernel.vector e ∈ (forced caps).filter (· ≠ .portable) ↔ caps.Supports (.vector e) := by
  have hlisted : e ∈ Extension.all.reverse := List.mem_reverse.mpr e.mem_all
  rw [filter_forced, List.mem_map_of_injective fun _ _ => Kernel.vector.inj, List.mem_filter,
    Caps.supports_iff]
  exact and_iff_right hlisted

/-- The names shown are those of the kernels that the set supports. -/
theorem name_mem_available {k : Kernel} : k.name ∈ available caps ↔ caps.Supports k := by
  rw [available_eq, List.mem_append, List.mem_map_of_injective Kernel.name_injective,
    List.mem_reverse]
  cases k with
  | bytewise | portable =>
    exact iff_of_true (.inl (by decide)) fun _ h => absurd h Caps.not_mem_empty
  | vector e =>
    have hvector : (Kernel.vector e).name ∉ [Kernel.bytewise.name, Kernel.portable.name] := by
      cases e <;> decide
    rw [or_iff_right hvector, vector_mem_filter_forced]

theorem exists_of_mem_available {name : String} (h : name ∈ available caps) :
    ∃ k : Kernel, k.name = name := by
  rw [available_eq, List.mem_append] at h
  rcases h with h | h
  · rcases List.mem_pair.mp h with rfl | rfl
    · exact ⟨.bytewise, rfl⟩
    · exact ⟨.portable, rfl⟩
  · obtain ⟨k, -, hk⟩ := List.mem_map.mp h
    exact ⟨k, hk⟩

/-- A word finds the kernel shown that it is for. -/
theorem lookup_eq_some_iff {called : String} {k : Kernel} : lookup caps called = some k ↔
    k.name ∈ available caps ∧ called ∈ k.words := by
  rw [lookup, Option.filter_eq_some_iff, Kernel.named?_eq_some_iff, demand_eq, name_mem_available,
    Caps.supports_iff, and_comm]

theorem lookup_eq_none {called : String} {k : Kernel} (hk : k.name ∉ available caps)
    (hcalled : called ∈ k.words) : lookup caps called = none := by
  cases hfound : lookup caps called with
  | none => rfl
  | some found =>
    obtain ⟨hshown, hfits⟩ := (lookup_eq_some_iff caps).mp hfound
    have hsame : k = found := Kernel.eq_of_mem_words hcalled hfits
    exact absurd (hsame ▸ hshown) hk

end Inventory

/-- **The lists of kernels agree** on every capability set. The names shown are the definition,
the portable kernel and the vector kernels checked, these in the opposite order. The vector
kernels checked are just those that the set supports, each wider than the next; in front
stands the kernel that is chosen. A word finds a kernel exactly if it is one of the words for
a kernel shown, of which the first is the name it is shown by: so each name shown finds its
kernel, and no word for any other kernel finds anything. Every kernel computes the checksum by
definition. -/
theorem inventories_agree (caps : Caps) :
    let vectors := (Inventory.forced caps).filter (· ≠ .portable)
    Inventory.available caps =
        [Kernel.bytewise.name, Kernel.portable.name] ++ vectors.reverse.map Kernel.name ∧
      (∃ es : List Extension, vectors = es.map Kernel.vector ∧
        (∀ e, e ∈ es ↔ caps.Supports (.vector e)) ∧
        es.Pairwise fun e next => next.width < e.width) ∧
      (Inventory.forced caps).head? = some ((widest? caps).getD .portable) ∧
      (∀ k : Kernel, k.words.head? = some k.name) ∧
      (∀ called k, Inventory.lookup caps called = some k ↔
        k.name ∈ Inventory.available caps ∧ called ∈ k.words) ∧
      (∀ name ∈ Inventory.available caps, ∃ k : Kernel, k.name = name ∧
        Inventory.lookup caps name = some k) ∧
      (∀ (k : Kernel) (called : String), k.name ∉ Inventory.available caps →
        called ∈ k.words → Inventory.lookup caps called = none) ∧
      ∀ (k : Kernel) (digest : UInt32) (b : Buffer),
        k.update digest b = Bytewise.update digest b.bytes := by
  intro vectors
  refine ⟨Inventory.available_eq caps, ⟨_, Inventory.filter_forced caps, fun e => ?_, ?_⟩,
    Inventory.head?_forced caps, Kernel.head?_words,
    fun called k => Inventory.lookup_eq_some_iff caps, fun name hname => ?_,
    fun k called => Inventory.lookup_eq_none caps, Kernel.update_eq_bytewise⟩
  · rw [← Inventory.vector_mem_filter_forced, Inventory.filter_forced,
      List.mem_map_of_injective fun _ _ => Kernel.vector.inj]
  · have hdescends : Extension.all.reverse.Pairwise fun e next => next.width < e.width := by
      decide
    exact hdescends.filter _
  · obtain ⟨k, rfl⟩ := Inventory.exists_of_mem_available caps hname
    exact ⟨k, rfl, (Inventory.lookup_eq_some_iff caps).mpr ⟨hname, k.name_mem_words⟩⟩

/-- A set without the baseline that holds the widest requirement, half of the middle one and a
capability without a name: short words find the kernels shown, and none finds the middle one. -/
theorem inventories_of_uneven_set :
    let caps : Caps := Caps.avx512All ∪ Caps.avx2 ∪ Caps.bit 40
    let shown := ["reference", "portable/unroll16", "x86_64/avx512bw"]
    ("x86_64/avx512bw" ∈ Inventory.available caps ∧
        Kernel.name (.vector .avx2) ∉ Inventory.available caps ∧
        "avx2" ∈ Kernel.words (.vector .avx2)) ∧
      Inventory.available caps = shown ∧
      widest? caps = some (.vector .avx512bw) ∧
      (Inventory.lookup caps "avx512" = some (.vector .avx512bw) ∧
        Inventory.lookup caps "portable" = some .portable ∧
        Inventory.lookup caps "reference/bytewise" = some .bytewise) ∧
      (∃ k : Kernel, k.name = "x86_64/avx512bw" ∧
        Inventory.lookup caps "x86_64/avx512bw" = some k) ∧
      Inventory.lookup caps "avx2" = none := by
  intro caps shown
  obtain ⟨havailable, -, -, -, hfound, hself, hnone, -⟩ := inventories_agree caps
  have hshown : Inventory.available caps = shown := havailable.trans (by decide)
  have hhidden : Kernel.name (.vector .avx2) ∉ Inventory.available caps := by
    rw [hshown]
    decide
  have hlisted {k : Kernel} (h : k.name ∈ shown) : k.name ∈ Inventory.available caps := hshown ▸ h
  have hword : "avx2" ∈ Kernel.words (.vector .avx2) := by decide
  exact ⟨⟨hlisted (k := .vector .avx512bw) (by decide), hhidden, hword⟩, hshown, by decide,
    ⟨(hfound "avx512" (.vector .avx512bw)).mpr ⟨hlisted (by decide), by decide⟩,
      (hfound "portable" .portable).mpr ⟨hlisted (by decide), by decide⟩,
      (hfound "reference/bytewise" .bytewise).mpr ⟨hlisted (by decide), by decide⟩⟩,
    hself _ (hlisted (k := .vector .avx512bw) (by decide)),
    hnone (.vector .avx2) "avx2" hhidden hword⟩

end AdaptiveAdler
