import CodeHealth.Proofs.Concern

/-!
# Concerns and letter case

The words of a taxonomy are looked for in the lower-case form of a text, but they are taken as they
are spelt.  So a word without capitals is found in any case, and a word with a capital is never
found.  Case is ignored on both sides exactly if that loses nothing: each word has in it, in some
case, a word without capitals of the same concern.
-/

namespace CodeHealth

namespace Text

variable {t w : Text}

/-- Some part of `t` is `w` if capital letters and small ones are taken as the same. -/
def OccursAnyCase (w t : Text) : Prop :=
  ∃ part, part <:+: t ∧ part.map Char.toLower = w.map Char.toLower

/-- Some character is a capital letter of ASCII. -/
def HasCapital (w : Text) : Prop :=
  ∃ c ∈ w, c.isUpper = true

instance (w : Text) : Decidable w.HasCapital :=
  List.decidableBEx (fun c : Char ↦ c.isUpper = true) w

theorem toLower_eq_self {c : Char} (h : ¬ c.isUpper = true) : c.toLower = c :=
  dif_neg (mt decide_eq_true h)

theorem toNat_toLower {c : Char} (h : c.isUpper = true) : c.toLower.toNat = c.toNat + 32 := by
  have hrange := isUpper_iff.mp h
  have hlower : c.toLower = _ := dif_pos (of_decide_eq_true h)
  rw [hlower]
  change (c.toNat + 32) % 2 ^ 32 = _
  omega

theorem not_isUpper_toLower (c : Char) : ¬ c.toLower.isUpper = true := by
  by_cases h : c.isUpper = true
  · have hrange := isUpper_iff.mp h
    rw [isUpper_iff, toNat_toLower h]
    omega
  · rwa [toLower_eq_self h]

theorem occursAnyCase_iff :
    w.OccursAnyCase t ↔ w.map Char.toLower <:+: t.map Char.toLower := by
  rw [List.infix_map_iff]
  exact exists_congr fun part ↦ and_congr_right fun _ ↦ eq_comm

theorem map_toLower_map_toLower (w : Text) :
    (w.map Char.toLower).map Char.toLower = w.map Char.toLower := by
  rw [List.map_map]
  exact List.map_congr_left fun c _ ↦ toLower_eq_self (not_isUpper_toLower c)

theorem occursAnyCase_map_toLower (w : Text) : w.OccursAnyCase (w.map Char.toLower) :=
  ⟨_, List.infix_rfl, map_toLower_map_toLower w⟩

theorem OccursAnyCase.trans {v : Text} (hv : v.OccursAnyCase w) (hw : w.OccursAnyCase t) :
    v.OccursAnyCase t := by
  rw [occursAnyCase_iff] at hv hw ⊢
  exact hv.trans hw

theorem map_toLower_eq_self (h : ¬ w.HasCapital) : w.map Char.toLower = w := by
  refine List.map_congr_left (fun c hc ↦ ?_) |>.trans (List.map_id w)
  exact toLower_eq_self fun hupper ↦ h ⟨c, hc, hupper⟩

theorem not_hasCapital_of_infix (h : w <:+: t.map Char.toLower) : ¬ w.HasCapital := by
  rintro ⟨c, hc, hupper⟩
  obtain ⟨d, -, rfl⟩ := List.mem_map.mp (h.subset hc)
  exact not_isUpper_toLower d hupper

/-- What a lower-case text holds is what the text holds in any case, words with capitals aside. -/
theorem infix_map_toLower_iff :
    w <:+: t.map Char.toLower ↔ ¬ w.HasCapital ∧ w.OccursAnyCase t := by
  constructor
  · intro h
    have hsmall := not_hasCapital_of_infix h
    refine ⟨hsmall, occursAnyCase_iff.mpr ?_⟩
    rwa [map_toLower_eq_self hsmall]
  · rintro ⟨hsmall, hoccurs⟩
    rw [occursAnyCase_iff, map_toLower_eq_self hsmall] at hoccurs
    exact hoccurs

theorem lowerAfter_of_isAscii (before : Text) (ht : t.IsAscii) :
    lowerAfter before t = t.map Char.toLower := by
  induction t generalizing before with
  | nil => rfl
  | cons c t ih =>
    obtain ⟨hc, ht⟩ := List.forall_mem_cons.mp ht
    have hsigma : c.toNat ≠ 0x3A3 := by omega
    rw [lowerAfter, ih _ ht, List.map_cons]
    simp [lowerChar, hc, hsigma]

theorem IsAscii.lower_eq (ht : t.IsAscii) : t.lower = t.map Char.toLower :=
  lowerAfter_of_isAscii [] ht

theorem IsAscii.map_toLower (ht : t.IsAscii) : Text.IsAscii (t.map Char.toLower) := by
  intro d hd
  obtain ⟨c, hc, rfl⟩ := List.mem_map.mp hd
  have hlt := ht c hc
  by_cases hupper : c.isUpper = true
  · have hrange := isUpper_iff.mp hupper
    rw [toNat_toLower hupper]
    omega
  · rwa [toLower_eq_self hupper]

end Text

namespace Taxonomy

variable {x : Taxonomy} {t tag : Text}

/-- Some word of the concern occurs in the text, in any case. -/
def Names (x : Taxonomy) (t tag : Text) : Prop :=
  ∃ words, (tag, words) ∈ x ∧ ∃ w ∈ words, w.OccursAnyCase t

theorem mem_concerns_iff :
    tag ∈ x.concerns t ↔ ∃ words, (tag, words) ∈ x ∧ ∃ w ∈ words, w <:+: t.lower := by
  simp only [concerns, List.mem_map, List.mem_filter, List.any_eq_true, Text.contains_iff]
  constructor
  · rintro ⟨⟨_, words⟩, ⟨hmem, hw⟩, rfl⟩
    exact ⟨words, hmem, hw⟩
  · rintro ⟨words, hmem, hw⟩
    exact ⟨(tag, words), ⟨hmem, hw⟩, rfl⟩

theorem mem_concerns_iff_of_isAscii (ht : t.IsAscii) :
    tag ∈ x.concerns t ↔
      ∃ words, (tag, words) ∈ x ∧ ∃ w ∈ words, ¬ w.HasCapital ∧ w.OccursAnyCase t := by
  simp only [mem_concerns_iff, ht.lower_eq, Text.infix_map_toLower_iff]

theorem words_unique {pairs : List (Text × List Text)} {words words' : List Text}
    (h : (tag, words) ∈ ofPairs pairs) (h' : (tag, words') ∈ ofPairs pairs) : words = words' := by
  rw [← Assoc.get?_eq_some_iff (nodup_keys_ofPairs pairs)] at h h'
  exact Option.some_inj.mp (h.symm.trans h')

/-- In a taxonomy of ASCII words, an ASCII text has the concerns of which a word without capitals
occurs in it in any case.  So these are the concerns of which any word does, for every such text,
exactly if each word holds one without capitals of the same concern. -/
theorem concerns_any_case {pairs : List (Text × List Text)} (hwords : (ofPairs pairs).IsAscii) :
    (∀ t : Text, t.IsAscii → ∀ tag, tag ∈ (ofPairs pairs).concerns t ↔
      ∃ words, (tag, words) ∈ ofPairs pairs ∧
        ∃ w ∈ words, ¬ w.HasCapital ∧ w.OccursAnyCase t) ∧
    ((∀ t : Text, t.IsAscii → ∀ tag,
        tag ∈ (ofPairs pairs).concerns t ↔ (ofPairs pairs).Names t tag) ↔
      ∀ tag words, (tag, words) ∈ ofPairs pairs →
        ∀ w ∈ words, ∃ v ∈ words, ¬ v.HasCapital ∧ v.OccursAnyCase w) := by
  refine ⟨fun t ht tag ↦ mem_concerns_iff_of_isAscii ht, fun h tag words hmem w hw ↦ ?_,
    fun h t ht tag ↦ ?_⟩
  · -- The lower-case form of a word is a text in which the word occurs.
    have hw' : Text.IsAscii (w.map Char.toLower) := (hwords _ hmem w hw).map_toLower
    have hnames : (ofPairs pairs).Names (w.map Char.toLower) tag :=
      ⟨words, hmem, w, hw, Text.occursAnyCase_map_toLower w⟩
    obtain ⟨words', hmem', v, hv, hsmall, hoccurs⟩ :=
      (mem_concerns_iff_of_isAscii hw').mp ((h _ hw' tag).mpr hnames)
    rw [words_unique hmem hmem']
    refine ⟨v, hv, hsmall, ?_⟩
    rw [Text.occursAnyCase_iff, Text.map_toLower_map_toLower] at hoccurs
    exact Text.occursAnyCase_iff.mpr hoccurs
  · rw [mem_concerns_iff_of_isAscii ht]
    constructor
    · rintro ⟨words, hmem, w, hw, -, hoccurs⟩
      exact ⟨words, hmem, w, hw, hoccurs⟩
    · rintro ⟨words, hmem, w, hw, hoccurs⟩
      obtain ⟨v, hv, hsmall, hvw⟩ := h tag words hmem w hw
      exact ⟨words, hmem, v, hv, hsmall, hvw.trans hoccurs⟩

/-- The words of the standard taxonomy have no capitals. -/
example : ∀ e ∈ ofPairs [], ∀ w ∈ e.2, ¬ w.HasCapital := by decide

/-- Words of two concerns, some of them with capitals. -/
def mixedWords : List (Text × List Text) :=
  [("io".toList, ["reFetch".toList, "fetch".toList]), ("ui".toList, ["View".toList])]

def shoutingText : Text := "FETCH(View);".toList

/-- One concern is found by its word in small letters, the other one is not found. -/
theorem concerns_any_case_mixedWords :
    (ofPairs mixedWords).IsAscii ∧ shoutingText.IsAscii ∧
    "io".toList ∈ (ofPairs mixedWords).concerns shoutingText ∧
    "ui".toList ∉ (ofPairs mixedWords).concerns shoutingText ∧
    ∃ words, ("io".toList, words) ∈ ofPairs mixedWords ∧
      ∃ w ∈ words, ¬ w.HasCapital ∧ w.OccursAnyCase shoutingText := by
  have hwords : (ofPairs mixedWords).IsAscii := by decide
  have ht : shoutingText.IsAscii := by decide
  have hio : "io".toList ∈ (ofPairs mixedWords).concerns shoutingText := by decide +kernel
  exact ⟨hwords, ht, hio, by decide +kernel, ((concerns_any_case hwords).1 _ ht _).mp hio⟩

/-- A taxonomy whose only word has a capital. -/
def capitalWord : List (Text × List Text) :=
  [("ui".toList, ["View".toList])]

/-- The text spells the word just as the taxonomy does, but the concern is not found. -/
theorem concerns_capitalWord :
    capitalWord ≠ [] ∧ (ofPairs capitalWord).IsAscii ∧ Text.IsAscii "View();".toList ∧
    (ofPairs capitalWord).Names "View();".toList "ui".toList ∧
    "ui".toList ∉ (ofPairs capitalWord).concerns "View();".toList := by
  refine ⟨by decide, by decide, by decide, ?_, by decide +kernel⟩
  have hpart : "View".toList <:+: "View();".toList := Text.contains_iff.mp (by decide)
  exact ⟨_, List.mem_singleton_self _, _, List.mem_singleton_self _, _, hpart, rfl⟩

end Taxonomy

end CodeHealth
