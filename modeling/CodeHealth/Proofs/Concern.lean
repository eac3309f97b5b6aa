import CodeHealth.Concern
import CodeHealth.Proofs.Assoc
import CodeHealth.Proofs.Source.Units
import CodeHealth.Proofs.Text.LowerCase

/-!
# Concerns of parts

A taxonomy names each concern once, and the concerns of a text come in its order.  If the words of a
taxonomy belong to ASCII, a text has all concerns of its parts; so a class has those of its methods.
-/

namespace CodeHealth.Taxonomy

open scoped List

variable {x : Taxonomy} {s t : Text}

/-- All words belong to ASCII. -/
def IsAscii (x : Taxonomy) : Prop :=
  ∀ e ∈ x, ∀ w ∈ e.2, Text.IsAscii w

instance (x : Taxonomy) : Decidable x.IsAscii :=
  inferInstanceAs (Decidable (∀ e ∈ x, ∀ w ∈ e.2, Text.IsAscii w))

theorem concerns_sublist_keys (x : Taxonomy) (t : Text) : x.concerns t <+ Assoc.keys x :=
  List.filter_sublist.map Prod.fst

theorem nodup_keys_ofPairs (pairs : List (Text × List Text)) :
    (Assoc.keys (ofPairs pairs)).Nodup := by
  rw [ofPairs]
  split
  · decide
  · exact Assoc.nodup_keys_ofList pairs

theorem IsAscii.concerns_sublist (hx : x.IsAscii) (h : s <:+: t) :
    x.concerns s <+ x.concerns t := by
  have hwords (e : Text × List Text) (he : e ∈ x) (hs : e.2.any s.lower.contains = true) :
      e.2.any t.lower.contains = true := by
    obtain ⟨w, hw, hcontains⟩ := List.any_eq_true.mp hs
    refine List.any_eq_true.mpr ⟨w, hw, Text.contains_iff.mpr ?_⟩
    exact (hx e he w hw).infix_lower_mono h (Text.contains_iff.mp hcontains)
  -- The concerns of the part are chosen among those of the whole.
  have hfilter : x.filter (fun e ↦ e.2.any s.lower.contains) =
      (x.filter fun e ↦ e.2.any t.lower.contains).filter fun e ↦ e.2.any s.lower.contains := by
    rw [List.filter_filter]
    refine List.filter_congr fun e he ↦ ?_
    cases hs : e.2.any s.lower.contains with
    | false => rfl
    | true => rw [hwords e he hs, Bool.and_self]
  show (x.filter fun e ↦ e.2.any s.lower.contains).map Prod.fst <+ _
  rw [hfilter]
  exact List.filter_sublist.map Prod.fst

/-- In a taxonomy of ASCII words, the concerns of a part of a text are concerns of the text, each
named once and in the order of the taxonomy; and those of a method are concerns of its class. -/
theorem concerns_part_sublist {pairs : List (Text × List Text)} (hwords : (ofPairs pairs).IsAscii) :
    (∀ s t : Text, s <:+: t → (ofPairs pairs).concerns s <+ (ofPairs pairs).concerns t) ∧
    (∀ t : Text, (ofPairs pairs).concerns t <+ Assoc.keys (ofPairs pairs) ∧
      ((ofPairs pairs).concerns t).Nodup) ∧
    ∀ (t file : Text) (l : Language), ∀ u ∈ (readDocument t (some l.name.toList) file).units,
      ∀ m ∈ u.shape.methods,
        (ofPairs pairs).concerns m.text <+ (ofPairs pairs).concerns u.text := by
  refine ⟨fun s t h ↦ hwords.concerns_sublist h, fun t ↦ ?_, fun t file l u hu m hm ↦ ?_⟩
  · have hsub := concerns_sublist_keys (ofPairs pairs) t
    exact ⟨hsub, (nodup_keys_ofPairs pairs).sublist hsub⟩
  · rw [readDocument_name] at hu
    exact hwords.concerns_sublist ((Source.liesIn_of_mem_units hu).infix_of_mem_methods hm)

/-- A text that ends with a capital sigma. -/
def sigmaText : Text := "Load ΑΣ".toList

/-- A class with a method. -/
def loaderSource : Text := "class View \x7b load() \x7b\x7d \x7d".toList

theorem units_loaderSource :
    (readDocument loaderSource (some Language.typescript.name.toList) []).units =
    [⟨some "View".toList, 0, 24, loaderSource, .classOf
      [⟨some "load".toList, 13, 22, "load() \x7b\x7d".toList, 0⟩]⟩] := by
  decide +kernel

/-- A letter behind the text makes its sigma one inside a word, so that its lower-case form is no
part of that of the whole; its concern in the standard taxonomy is still one of the whole. -/
theorem concerns_part_sublist_sigmaText :
    (ofPairs []).IsAscii ∧ sigmaText <:+: sigmaText ++ "Α view".toList ∧
    ¬ sigmaText.lower <:+: (sigmaText ++ "Α view".toList).lower ∧
    (ofPairs []).concerns sigmaText = ["data".toList] ∧
    (ofPairs []).concerns sigmaText <+ (ofPairs []).concerns (sigmaText ++ "Α view".toList) ∧
    ∃ u ∈ (readDocument loaderSource (some Language.typescript.name.toList) []).units,
      ∃ m ∈ u.shape.methods, (ofPairs []).concerns m.text = ["data".toList] ∧
        (ofPairs []).concerns m.text <+ (ofPairs []).concerns u.text := by
  have hwords : (ofPairs []).IsAscii := by decide
  have hinfix : sigmaText <:+: sigmaText ++ "Α view".toList := (List.prefix_append _ _).isInfix
  obtain ⟨hpart, -, hmethod⟩ := concerns_part_sublist hwords
  refine ⟨hwords, hinfix, ?_, by decide +kernel, hpart _ _ hinfix, ?_⟩
  · rw [← Text.contains_iff]
    decide +kernel
  · have hu := List.mem_of_head? (congrArg List.head? units_loaderSource)
    exact ⟨_, hu, _, List.mem_singleton_self _, by decide +kernel,
      hmethod loaderSource [] .typescript _ hu _ (List.mem_singleton_self _)⟩

end CodeHealth.Taxonomy
