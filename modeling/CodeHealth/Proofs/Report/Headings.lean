import CodeHealth.Proofs.Distinct
import CodeHealth.Proofs.Except
import CodeHealth.Proofs.Project.Path
import CodeHealth.Proofs.Report.Markup
import CodeHealth.Report.Terminal

/-!
# Headings of a report

A report has one heading per file, in increasing order of the paths, with the findings in the file
under it.  A console takes the path in a heading for markup, so what is seen there is the path itself
exactly if that is plain.  Between such paths headings differ; paths that differ in a tag only are
seen as the same heading, if they are shown at all.
-/

namespace CodeHealth.Report

/-! ## What is seen -/

/-- Where in a control sequence a terminal is: in none, behind its first character, in one that
changes the style, or in one that gives a link, which ends with two characters. -/
inductive Mode
  | text | escape | style | link | linkEnd

/-- Text without control sequences. -/
def visibleFrom : Mode → Text → Text
  | _, [] => []
  | .text, c :: t => if c == '\x1b' then visibleFrom .escape t else c :: visibleFrom .text t
  | .escape, c :: t =>
    visibleFrom (if c == '[' then .style else if c == ']' then .link else .text) t
  | .style, c :: t => visibleFrom (if '@' ≤ c && c ≤ '~' then .text else .style) t
  | .link, c :: t => visibleFrom (if c == '\x1b' then .linkEnd else .link) t
  | .linkEnd, _ :: t => visibleFrom .text t

def visible (t : Text) : Text :=
  visibleFrom .text t

theorem visible_append {s : Text} (h : '\x1b' ∉ s) (t : Text) : visible (s ++ t) = s ++ visible t := by
  induction s with
  | nil => rfl
  | cons c s ih =>
    obtain ⟨hc, hs⟩ := not_or.mp (mt List.mem_cons.mpr h)
    have hstep : visible (c :: (s ++ t)) = c :: visible (s ++ t) := if_neg (by simpa using Ne.symm hc)
    rw [List.cons_append, hstep, ih hs, List.cons_append]

theorem visible_styled {s : Text} (h : '\x1b' ∉ s) (t : Text) :
    visible (styled "36" s ++ t) = s ++ visible t := by
  have hstyled : styled "36" s ++ t = "\x1b[36m".toList ++ (s ++ ("\x1b[0m".toList ++ t)) := by
    simp [styled]
  have hstart (u : Text) : visible ("\x1b[36m".toList ++ u) = visible u := rfl
  have hstop (u : Text) : visible ("\x1b[0m".toList ++ u) = visible u := rfl
  rw [hstyled, hstart, visible_append h, hstop]

/-! ## Titles between dashes -/

/-- A title between dashes, without colours. -/
def ruled (title : Text) : Text :=
  let side := (reportWidth - title.length) / 2
  dashes (side - 1) ++ ' ' :: (title ++ ' ' :: dashes (reportWidth - side - title.length - 1))

theorem dashes_append_space_inj {m n : Nat} {s t : Text}
    (h : dashes m ++ ' ' :: s = dashes n ++ ' ' :: t) : m = n ∧ s = t := by
  induction m generalizing n with
  | zero =>
    cases n with
    | zero => simpa [dashes] using h
    | succ n => simp [dashes, List.replicate_succ] at h
  | succ m ih =>
    cases n with
    | zero => simp [dashes, List.replicate_succ] at h
    | succ n =>
      obtain ⟨rfl, rfl⟩ := ih (List.cons.inj h).2
      exact ⟨rfl, rfl⟩

theorem append_space_dashes_inj {m n : Nat} {s t : Text}
    (h : s ++ ' ' :: dashes m = t ++ ' ' :: dashes n) : s = t ∧ m = n := by
  have hrev : dashes m ++ ' ' :: s.reverse = dashes n ++ ' ' :: t.reverse := by
    simpa [dashes] using congrArg List.reverse h
  obtain ⟨hmn, hst⟩ := dashes_append_space_inj hrev
  exact ⟨List.reverse_injective hst, hmn⟩

/-- A title is read back from between its dashes. -/
theorem ruled_injective : Function.Injective ruled := by
  intro a b h
  exact (append_space_dashes_inj (dashes_append_space_inj h).2).1

theorem notMem_dashes (n : Nat) : '\x1b' ∉ dashes n := by
  intro h
  exact absurd (List.eq_of_mem_replicate h) (by decide)

theorem visible_titleLine {t : Text} (h : '\x1b' ∉ t) :
    visible (titleLine t ++ ['\n']) = ruled t ++ ['\n'] := by
  have hleft (n : Nat) : '\x1b' ∉ dashes n ++ [' '] := by simp [notMem_dashes]
  have hright (n : Nat) : '\x1b' ∉ ' ' :: dashes n := by simp [notMem_dashes]
  simp only [titleLine, List.append_assoc]
  rw [visible_styled (hleft _), visible_append h, visible_styled (hright _)]
  simp [ruled, visible, visibleFrom]

/-- A path that a heading has room for. -/
def FitsHeading (file : Text) : Prop :=
  file.length ≤ reportWidth - 4

instance (file : Text) : Decidable (FitsHeading file) :=
  inferInstanceAs (Decidable (_ ≤ _))

theorem fitTitle_shown {file : Text} (h : FitsHeading file) :
    fitTitle (shown (pieces 0 0 file)) = shown (pieces 0 0 file) := by
  have hle : (shown (pieces 0 0 file)).length ≤ file.length := by
    simpa using length_shown_pieces_le 0 0 file
  exact if_pos (hle.trans h)

/-! ## Consoles -/

/-- Printable characters of ASCII in which no name of an emoji stands between colons. -/
structure Ordinary (isEmoji : Text → Prop) (t : Text) : Prop where
  printable : ∀ c ∈ t, ' ' ≤ c ∧ c ≤ '~'
  noEmoji : ∀ name, isEmoji name → ¬ ':' :: name ++ [':'] <:+: t

theorem Ordinary.notMem {isEmoji : Text → Prop} {t : Text} (h : Ordinary isEmoji t) :
    '\x1b' ∉ t := by
  intro hmem
  exact absurd (h.printable _ hmem).1 (by decide)

/-- Text without colons is free of emoji. -/
theorem ordinary_of_forall (isEmoji : Text → Prop) {t : Text}
    (h : ∀ c ∈ t, ' ' ≤ c ∧ c ≤ '~' ∧ c ≠ ':') : Ordinary isEmoji t where
  printable c hc := ⟨(h c hc).1, (h c hc).2.1⟩
  noEmoji _ _ hpart := (h ':' (hpart.subset List.mem_cons_self)).2.2 rfl

/-- The console takes titles for markup: one without tags is shown, and what is seen of any that is
shown is the markup without its tags, cut to fit, between dashes. -/
structure Console.ReadsMarkup (console : Console) (isEmoji : Text → Prop) : Prop where
  shows : ∀ title, Ordinary isEmoji title → (∀ tag, IsTag tag → ¬ tag <:+: title) →
    ∃ line, console.print (.heading title) = .ok line
  seen : ∀ title line, Ordinary isEmoji title → console.print (.heading title) = .ok line →
    visible line = ruled (fitTitle (shown (pieces 0 0 title))) ++ ['\n']

theorem notMem_fitTitle {t : Text} (h : '\x1b' ∉ t) : '\x1b' ∉ fitTitle t := by
  rw [fitTitle]
  split
  · exact h
  · intro hmem
    rcases List.mem_append.mp hmem with hmem | hmem
    · exact h (List.mem_of_mem_take hmem)
    · exact absurd (List.mem_singleton.mp hmem) (by decide)

theorem readsMarkup_terminal (isEmoji : Text → Prop) : terminal.ReadsMarkup isEmoji where
  shows title _ htags := by
    have hnil : tags (pieces 0 0 title) = [] := tags_pieces_eq_nil htags
    refine ⟨titleLine (fitTitle (shown (pieces 0 0 title))) ++ ['\n'], ?_⟩
    simp only [terminal, heading, hnil, unmatched?, Except.map]
  seen title line hordinary hline := by
    obtain ⟨l, hl, rfl⟩ := Except.map_eq_ok_iff.mp hline
    rw [heading] at hl
    split at hl
    · cases hl
      refine visible_titleLine (notMem_fitTitle fun hmem ↦ ?_)
      rcases mem_of_mem_shown hmem with hslash | htitle
      · exact absurd hslash (by decide)
      · exact hordinary.notMem htitle
    · cases hl

section Console

variable {console : Console} {isEmoji : Text → Prop}

/-- The path itself is seen between the dashes. -/
def Console.ShowsVerbatim (console : Console) (file : Text) : Prop :=
  ∃ line, console.print (.heading file) = .ok line ∧ visible line = ruled file ++ ['\n']

theorem Console.ReadsMarkup.showsVerbatim_iff (h : console.ReadsMarkup isEmoji) {file : Text}
    (hfile : Ordinary isEmoji file) (hfits : FitsHeading file) :
    console.ShowsVerbatim file ↔ IsPlain file := by
  constructor
  · rintro ⟨line, hline, hseen⟩
    rw [h.seen file line hfile hline, fitTitle_shown hfits] at hseen
    exact shown_pieces_eq_self_iff.mp (ruled_injective (List.append_cancel_right hseen))
  · intro hplain
    obtain ⟨line, hline⟩ := h.shows file hfile hplain.1
    refine ⟨line, hline, ?_⟩
    rw [h.seen file line hfile hline, fitTitle_shown hfits, shown_pieces_eq_self_iff.mpr hplain]

theorem Console.ReadsMarkup.visible_eq_of_tags (h : console.ReadsMarkup isEmoji)
    {s tag tag' t line line' : Text} (hs : s.getLast? ≠ some '\\') (htag : IsTag tag)
    (htag' : IsTag tag') (hfile : Ordinary isEmoji (s ++ tag ++ t))
    (hfile' : Ordinary isEmoji (s ++ tag' ++ t))
    (hline : console.print (.heading (s ++ tag ++ t)) = .ok line)
    (hline' : console.print (.heading (s ++ tag' ++ t)) = .ok line') :
    visible line = visible line' := by
  rw [h.seen _ _ hfile hline, h.seen _ _ hfile' hline', shown_pieces_append_tag hs htag,
    shown_pieces_append_tag hs htag']

end Console

/-! ## Sections of a report -/

theorem mem_filesOf {findings : List Located} {file : Text} :
    file ∈ filesOf findings ↔ ∃ f ∈ findings, f.file = file := by
  rw [filesOf, List.mem_mergeSort, List.mem_eraseDups, List.mem_map]

theorem pairwise_lt_filesOf (findings : List Located) : (filesOf findings).Pairwise (· < ·) := by
  have hsorted : (filesOf findings).Pairwise fun a b ↦ Text.le a b = true := by
    refine List.pairwise_mergeSort (fun a b c hab hbc ↦ ?_) (fun a b ↦ ?_) _
    · exact Text.le_iff.mpr (le_trans (Text.le_iff.mp hab) (Text.le_iff.mp hbc))
    · simpa [Text.le_iff] using le_total a b
  have hnodup : (filesOf findings).Nodup :=
    (List.mergeSort_perm _ _).nodup_iff.mpr (nodup_eraseDups _)
  exact hsorted.imp₂ (fun _ _ hle hne ↦ lt_of_le_of_ne (Text.le_iff.mp hle) hne) hnodup

theorem table_eq_ok_iff {console : Console} {findings : List Located} {text : Text} :
    table console findings = .ok text ↔
      ∃ shown, List.Forall₂ (fun part t ↦ console.print part = .ok t) (parts findings) shown ∧
        shown.flatten = text := by
  rw [table, Except.map_eq_ok_iff]
  simp only [Except.mapM_eq_ok_iff]

/-- Findings in two files. -/
def pageFindings : List Located :=
  ["b.ts", "a.js", "b.ts"].map fun file ↦ ⟨file.toList, ⟨.largeFile, .info, 0, 0⟩, 1, 1⟩

theorem isTag_id : IsTag "[id]".toList :=
  ⟨'i', "d".toList, rfl, rfl, by decide, by decide⟩

theorem isTag_lang : IsTag "[lang]".toList :=
  ⟨'l', "ang".toList, rfl, rfl, by decide, by decide⟩

theorem ordinary_id (isEmoji : Text → Prop) : Ordinary isEmoji "[id].js".toList :=
  ordinary_of_forall isEmoji (by decide)

theorem ordinary_lang (isEmoji : Text → Prop) : Ordinary isEmoji "[lang].js".toList :=
  ordinary_of_forall isEmoji (by decide)

end CodeHealth.Report
