import AdaptiveAdler.Cpu.Detection
import AdaptiveAdler.Proofs.Words

/-! A signature says its family and model.

Each field of a signature has its place in the word (`Signature.toNat_word`), so fields and
words are the same (`Signature.word_ofWord`, `Signature.ofWord_word`), and a shift and a mask
read a field (`toNat_field`). What is read from a word is known by its fields
(`Identity.toNat_family`, `Identity.toNat_model`), and reading undoes writing: whatever stands
in the fields that do not count, a family and a model come back as they were encoded, and every
word encodes what is read from it (`Identity.decoding_inverts_encoding`). Whether the cores are
unlike is a matter of three fields (`Cpu.isHybrid_ofWords_iff`). -/
namespace AdaptiveAdler

namespace Signature

/-! ### Fields and words -/

/-- The fields, each at its place. -/
theorem toNat_word (s : Signature) : s.word.toNat =
    s.stepping.toNat + 2 ^ 4 * s.model.toNat + 2 ^ 8 * s.family.toNat + 2 ^ 12 * s.type.toNat
      + 2 ^ 14 * s.reserved.toNat + 2 ^ 16 * s.extendedModel.toNat
      + 2 ^ 20 * s.extendedFamily.toNat + 2 ^ 28 * s.highReserved.toNat := by
  rw [word, UInt32.toNat_ofBitVec]
  simp only [toNat_append_eq_add]
  omega

/-- The fields that a word holds. -/
def ofWord (word : UInt32) : Signature where
  stepping := word.toBitVec.extractLsb' 0 4
  model := word.toBitVec.extractLsb' 4 4
  family := word.toBitVec.extractLsb' 8 4
  type := word.toBitVec.extractLsb' 12 2
  reserved := word.toBitVec.extractLsb' 14 2
  extendedModel := word.toBitVec.extractLsb' 16 4
  extendedFamily := word.toBitVec.extractLsb' 20 8
  highReserved := word.toBitVec.extractLsb' 28 4

theorem word_ofWord (word : UInt32) : (ofWord word).word = word := by
  apply UInt32.toNat_inj.mp
  have hword := word.toNat_lt
  rw [toNat_word]
  simp only [ofWord, BitVec.extractLsb'_toNat, UInt32.toNat_toBitVec, Nat.shiftRight_eq_div_pow]
  omega

theorem word_injective : Function.Injective word := by
  intro s t h
  have hsum := congrArg UInt32.toNat h
  rw [toNat_word, toNat_word] at hsum
  obtain ⟨⟩ := s
  obtain ⟨⟩ := t
  rw [mk.injEq]
  simp only [← BitVec.toNat_inj] at hsum ⊢
  omega

theorem ofWord_word (s : Signature) : ofWord s.word = s :=
  word_injective (word_ofWord s.word)

/-! ### Encoding -/

/-- The extended model is part of the model in these families only. -/
def ExtendsModel (family : Nat) : Prop := family = 6 ∨ 15 ≤ family

instance (family : Nat) : Decidable (ExtendsModel family) :=
  inferInstanceAs (Decidable (_ ∨ _))

end Signature

namespace Identity

/-- A family and a model that a signature can stand for. -/
structure Encodable (i : Identity) : Prop where
  family_le : i.family.toNat ≤ 270
  model_lt : i.model.toNat < if Signature.ExtendsModel i.family.toNat then 256 else 16

/-- The signature of a family and a model. What does not depend on them, the extended
fields where they do not count among it, is as in `spare`. -/
def encode (i : Identity) (spare : Signature) : Signature :=
  { spare with
    family := BitVec.ofNat 4 (min i.family.toNat 15)
    model := BitVec.ofNat 4 (i.model.toNat % 16)
    extendedFamily :=
      if 15 ≤ i.family.toNat then BitVec.ofNat 8 (i.family.toNat - 15) else spare.extendedFamily
    extendedModel :=
      if Signature.ExtendsModel i.family.toNat then BitVec.ofNat 4 (i.model.toNat / 16)
      else spare.extendedModel }

theorem eq_of_toNat {i j : Identity} (hfamily : i.family.toNat = j.family.toNat)
    (hmodel : i.model.toNat = j.model.toNat) : i = j := by
  obtain ⟨f, m⟩ := i
  obtain ⟨f', m'⟩ := j
  rw [mk.injEq]
  exact ⟨UInt32.toNat_inj.mp hfamily, UInt32.toNat_inj.mp hmodel⟩

section Encoding
variable (i : Identity) (spare : Signature)

theorem toNat_encode_family : (i.encode spare).family.toNat = min i.family.toNat 15 := by
  rw [encode, BitVec.toNat_ofNat]
  omega

theorem toNat_encode_model : (i.encode spare).model.toNat = i.model.toNat % 16 := by
  rw [encode, BitVec.toNat_ofNat]
  omega

variable {i}

theorem toNat_encode_extendedFamily (h : i.Encodable) (hcounts : 15 ≤ i.family.toNat) :
    (i.encode spare).extendedFamily.toNat = i.family.toNat - 15 := by
  have hle := h.family_le
  simp only [encode, if_pos hcounts, BitVec.toNat_ofNat]
  omega

theorem toNat_encode_extendedModel (h : i.Encodable)
    (hcounts : Signature.ExtendsModel i.family.toNat) :
    (i.encode spare).extendedModel.toNat = i.model.toNat / 16 := by
  have hlt := h.model_lt
  rw [if_pos hcounts] at hlt
  simp only [encode, if_pos hcounts, BitVec.toNat_ofNat]
  omega

end Encoding

section Reading
variable (word : UInt32)

theorem toNat_family : (ofWord word).family.toNat = (Signature.ofWord word).family.toNat +
    if (Signature.ofWord word).family.toNat = 15 then (Signature.ofWord word).extendedFamily.toNat
    else 0 := by
  have hbase : ((word >>> 8) &&& 0xF).toNat = (Signature.ofWord word).family.toNat :=
    toNat_field word (by decide) (by decide)
  have hextended : ((word >>> 20) &&& 0xFF).toNat =
      (Signature.ofWord word).extendedFamily.toNat :=
    toNat_field word (by decide) (by decide)
  have hcounts : (word >>> 8) &&& 0xF = 0xF ↔ (Signature.ofWord word).family.toNat = 15 := by
    rw [← UInt32.toNat_inj, hbase]
    rfl
  simp only [ofWord, hcounts]
  split
  · rw [UInt32.toNat_add, hbase, hextended]
    omega
  · rw [hbase, Nat.add_zero]

theorem toNat_model : (ofWord word).model.toNat = (Signature.ofWord word).model.toNat +
    if Signature.ExtendsModel (Signature.ofWord word).family.toNat then
      16 * (Signature.ofWord word).extendedModel.toNat
    else 0 := by
  have hbase : ((word >>> 8) &&& 0xF).toNat = (Signature.ofWord word).family.toNat :=
    toNat_field word (by decide) (by decide)
  have hlow : ((word >>> 4) &&& 0xF).toNat = (Signature.ofWord word).model.toNat :=
    toNat_field word (by decide) (by decide)
  have hhigh : ((word >>> 16) &&& 0xF).toNat = (Signature.ofWord word).extendedModel.toNat :=
    toNat_field word (by decide) (by decide)
  have hcounts : (word >>> 8) &&& 0xF = 0x6 ∨ (word >>> 8) &&& 0xF = 0xF ↔
      Signature.ExtendsModel (Signature.ofWord word).family.toNat := by
    rw [← UInt32.toNat_inj, ← UInt32.toNat_inj, hbase]
    show _ = 6 ∨ _ = 15 ↔ _ = 6 ∨ 15 ≤ _
    omega
  simp only [ofWord, hcounts]
  split
  · have hroom : ((word >>> 16) &&& 0xF).toNat * 2 ^ 4 < 2 ^ 32 := by omega
    have hnibble : ((word >>> 4) &&& 0xF).toNat < 2 ^ 4 := by omega
    rw [UInt32.or_comm]
    refine (toNat_shiftLeft_or (by decide) hroom hnibble).trans ?_
    rw [hlow, hhigh]
    show _ * 2 ^ 4 + _ = _
    omega
  · rw [hlow, Nat.add_zero]

theorem fifteen_le_family :
    15 ≤ (ofWord word).family.toNat ↔ (Signature.ofWord word).family.toNat = 15 := by
  rw [toNat_family]
  split <;> omega

/-- The family shown and the base family agree on what counts. -/
theorem extendsModel_family : Signature.ExtendsModel (ofWord word).family.toNat ↔
    Signature.ExtendsModel (Signature.ofWord word).family.toNat := by
  rw [toNat_family]
  unfold Signature.ExtendsModel
  split <;> omega

theorem encodable_ofWord : (ofWord word).Encodable := by
  constructor
  · rw [toNat_family]
    split <;> omega
  · simp only [toNat_model, extendsModel_family]
    split <;> omega

/-- Encoding what is read from a word, with the fields of the word to spare, gives its fields. -/
theorem encode_ofWord : (ofWord word).encode (Signature.ofWord word) = Signature.ofWord word := by
  generalize hs : Signature.ofWord word = s
  have hfamily : ((ofWord word).encode s).family = s.family := by
    apply BitVec.eq_of_toNat_eq
    rw [toNat_encode_family, toNat_family, hs]
    split <;> omega
  have hmodel : ((ofWord word).encode s).model = s.model := by
    apply BitVec.eq_of_toNat_eq
    rw [toNat_encode_model, toNat_model, hs]
    split <;> omega
  have hextendedFamily : ((ofWord word).encode s).extendedFamily = s.extendedFamily := by
    by_cases hcounts : 15 ≤ (ofWord word).family.toNat
    · have hlast := (fifteen_le_family word).mp hcounts
      apply BitVec.eq_of_toNat_eq
      rw [toNat_encode_extendedFamily s (encodable_ofWord word) hcounts, toNat_family,
        if_pos hlast, hlast, hs]
      exact Nat.add_sub_cancel_left ..
    · exact if_neg hcounts
  have hextendedModel : ((ofWord word).encode s).extendedModel = s.extendedModel := by
    by_cases hcounts : Signature.ExtendsModel (ofWord word).family.toNat
    · apply BitVec.eq_of_toNat_eq
      rw [toNat_encode_extendedModel s (encodable_ofWord word) hcounts, toNat_model,
        if_pos ((extendsModel_family word).mp hcounts), hs]
      omega
    · exact if_neg hcounts
  show Signature.mk s.stepping ((ofWord word).encode s).model ((ofWord word).encode s).family
    s.type s.reserved ((ofWord word).encode s).extendedModel
    ((ofWord word).encode s).extendedFamily s.highReserved = s
  rw [hmodel, hfamily, hextendedModel, hextendedFamily]

end Reading

/-- Reading undoes encoding, whatever the spare fields hold. -/
theorem ofWord_encode {i : Identity} (h : i.Encodable) (spare : Signature) :
    ofWord (i.encode spare).word = i := by
  have hmodel := h.model_lt
  apply eq_of_toNat
  · rw [toNat_family, Signature.ofWord_word, toNat_encode_family]
    split
    next hlast =>
      rw [toNat_encode_extendedFamily spare h (by omega)]
      omega
    next => omega
  · have hcounts : Signature.ExtendsModel (min i.family.toNat 15) ↔
        Signature.ExtendsModel i.family.toNat := by
      unfold Signature.ExtendsModel
      omega
    rw [toNat_model, Signature.ofWord_word, toNat_encode_family, toNat_encode_model]
    simp only [hcounts]
    split at hmodel
    next hextends =>
      rw [if_pos hextends, toNat_encode_extendedModel spare h hextends]
      omega
    next hother =>
      rw [if_neg hother]
      omega

end Identity

/-! ### Unlike cores -/

/-- Of a signature, three fields say whether the cores are unlike. -/
theorem Cpu.isHybrid_ofWords_iff {intel : Bool} {s : Signature} {basic extended : UInt32}
    {saved : UInt64} : (Cpu.ofWords intel s.word basic extended saved).isHybrid = true ↔
      intel = true ∧ s.family.toNat = 6 ∧
        UInt32.ofNat (s.model.toNat + 16 * s.extendedModel.toNat) ∈ Cpu.hybridModels := by
  have hfamily : (Identity.ofWord s.word).family = 6 ↔ s.family.toNat = 6 := by
    rw [← UInt32.toNat_inj, Identity.toNat_family, Signature.ofWord_word]
    show _ = 6 ↔ _
    split <;> omega
  rw [isHybrid, ofWords, Bool.and_eq_true, Bool.and_eq_true, beq_iff_eq, hfamily, and_assoc,
    List.contains_iff_mem]
  refine and_congr_right fun _ => and_congr_right fun hsix => ?_
  have hmodel : (Identity.ofWord s.word).model =
      UInt32.ofNat (s.model.toNat + 16 * s.extendedModel.toNat) := by
    apply UInt32.toNat_inj.mp
    rw [Identity.toNat_model, Signature.ofWord_word, if_pos (.inl hsix),
      UInt32.toNat_ofNat_of_lt']
    show _ < 2 ^ 32
    omega
  rw [hmodel]

/-- **Decoding inverts encoding.** A family and a model that a signature can stand for are
read back from every word that encodes them, whatever it holds in the fields that do not
count, and every word encodes what is read from it. So whether a processor has unlike cores
does not change with the stepping, the type, the extended family or the reserved bits of its
signature, and it has none if the base family is not 6. -/
theorem Identity.decoding_inverts_encoding :
    (∀ (i : Identity) (spare : Signature), i.Encodable → ofWord (i.encode spare).word = i) ∧
      (∀ word : UInt32, (ofWord word).Encodable ∧
        ∃ spare : Signature, ((ofWord word).encode spare).word = word) ∧
      ∀ (intel : Bool) (basic extended : UInt32) (saved : UInt64) (s : Signature),
        let hybrid (s : Signature) := (Cpu.ofWords intel s.word basic extended saved).isHybrid
        (∀ stepping type reserved extendedFamily highReserved,
          hybrid { s with
            stepping := stepping
            type := type
            reserved := reserved
            extendedFamily := extendedFamily
            highReserved := highReserved } = hybrid s) ∧
          (s.family ≠ 6 → hybrid s = false) := by
  refine ⟨fun i spare h => ofWord_encode h spare,
    fun word => ⟨encodable_ofWord word, Signature.ofWord word, ?_⟩,
    fun intel basic extended saved s => ⟨?_, fun hfamily => ?_⟩⟩
  · rw [encode_ofWord, Signature.word_ofWord]
  · intro stepping type reserved extendedFamily highReserved
    rw [Bool.eq_iff_iff, Cpu.isHybrid_ofWords_iff, Cpu.isHybrid_ofWords_iff]
  · rw [Bool.eq_false_iff, ne_eq, Cpu.isHybrid_ofWords_iff]
    rintro ⟨-, hsix, -⟩
    exact hfamily (BitVec.eq_of_toNat_eq hsix)

/-- A processor with unlike cores, the extended family of its signature set for no reason, and
one of family 25, whose signature has 15 as its base family and the rest in the extended one. -/
theorem Identity.decoding_of_two_signatures :
    let unlike : Identity := ⟨6, 0x97⟩
    let twentyFive : Identity := ⟨0x19, 0x61⟩
    let spare : Signature := ⟨2, 0, 0, 0, 0, 0, 0xA5, 0⟩
    let hybrid (s : Signature) := (Cpu.ofWords true s.word 0 0 0).isHybrid
    ((unlike.Encodable ∧ twentyFive.Encodable) ∧ (twentyFive.encode spare).family ≠ 6) ∧
      (unlike.encode spare).word = 0x0A590672 ∧ ofWord 0x0A590672 = unlike ∧
      (twentyFive.encode spare).word = 0x00A60F12 ∧ ofWord 0x00A60F12 = twentyFive ∧
      hybrid (unlike.encode spare) = true ∧ hybrid (twentyFive.encode spare) = false := by
  intro unlike twentyFive spare hybrid
  obtain ⟨hread, -, hcores⟩ := Identity.decoding_inverts_encoding
  have hunlike : unlike.Encodable := ⟨by decide, by decide⟩
  have htwentyFive : twentyFive.Encodable := ⟨by decide, by decide⟩
  have hfamily : (twentyFive.encode spare).family ≠ 6 := by decide
  have hword : (unlike.encode spare).word = 0x0A590672 := by decide
  have hword' : (twentyFive.encode spare).word = 0x00A60F12 := by decide
  obtain ⟨hspare, -⟩ := hcores true 0 0 0 (unlike.encode spare)
  obtain ⟨-, hnone⟩ := hcores true 0 0 0 (twentyFive.encode spare)
  refine ⟨⟨⟨hunlike, htwentyFive⟩, hfamily⟩, hword, ?_, hword', ?_, ?_, hnone hfamily⟩
  · rw [← hword]
    exact hread unlike spare hunlike
  · rw [← hword']
    exact hread twentyFive spare htwentyFive
  · exact (hspare 2 0 0 0 0).symm.trans (by decide)

end AdaptiveAdler
