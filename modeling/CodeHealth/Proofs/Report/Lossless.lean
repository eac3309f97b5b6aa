import CodeHealth.Proofs.Command.Outcome
import CodeHealth.Proofs.Report.Json.RoundTrip
import CodeHealth.Proofs.Text.LowerCase
import CodeHealth.Proofs.Text.Utf8

/-!
# Reports lose nothing

The text of a report as JSON reads back as the report: from its value all entries and errors can be
taken again, in order and with all their fields.  It is written in ASCII, whatever the texts in it,
so a file that holds it is the same text in bytes.
-/

namespace CodeHealth

namespace Report

namespace Json

/-! ## Fields -/

def field? (name : String) : Json → Option Json
  | .object fields => Assoc.get? name.toList fields
  | _ => none

def textField? (name : String) (v : Json) : Option Text :=
  match v.field? name with
  | some (.string t) => some t
  | _ => none

def numberField? (name : String) (v : Json) : Option Int :=
  match v.field? name with
  | some (.number n) => some n
  | _ => none

def arrayField? (name : String) (v : Json) : Option (List Json) :=
  match v.field? name with
  | some (.array items) => some items
  | _ => none

def finding? (v : Json) : Option Entry := do
  return {
    file := ← v.textField? "file_path"
    rule := ← v.textField? "rule_code"
    message := ← v.textField? "message"
    severity := ← v.textField? "severity"
    startOffset := ← v.numberField? "start_offset"
    endOffset := ← v.numberField? "end_offset"
    startLine := ← v.numberField? "start_line"
    endLine := ← v.numberField? "end_line" }

def error? (v : Json) : Option FileError := do
  return {
    file := ← v.textField? "file_path"
    message := ← v.textField? "message" }

/-- The entries and errors of a report. -/
def report? (v : Json) : Option (List Entry × List FileError) := do
  return (← (← v.arrayField? "findings").mapM finding?, ← (← v.arrayField? "errors").mapM error?)

theorem finding?_ofEntry (e : Entry) : (ofEntry e).finding? = some e := rfl

theorem error?_ofError (e : FileError) : (ofError e).error? = some e := rfl

theorem mapM_map_eq_some {α β : Type} {f : β → Option α} {g : α → β} (h : ∀ a, f (g a) = some a)
    (as : List α) : (as.map g).mapM f = some as := by
  induction as with
  | nil => rfl
  | cons a as ih => simp [h, ih]

theorem report?_ofReport (entries : List Entry) (errors : List FileError) :
    (ofReport entries errors).report? = some (entries, errors) := by
  have hfindings : (ofReport entries errors).arrayField? "findings" = some (entries.map ofEntry) :=
    rfl
  have herrors : (ofReport entries errors).arrayField? "errors" = some (errors.map ofError) := rfl
  simp [report?, hfindings, herrors, mapM_map_eq_some finding?_ofEntry,
    mapM_map_eq_some error?_ofError]

end Json

/-! ## Texts in ASCII -/

open Text

theorem isAscii_append {s t : Text} : (s ++ t).IsAscii ↔ s.IsAscii ∧ t.IsAscii :=
  List.forall_mem_append

theorem isAscii_hex (width n : Nat) : (hex width n).IsAscii := by
  have hdigit : ∀ d < 16, d.digitChar.toNat < 0x80 := by decide
  refine isAscii_append.mpr ⟨fun c hc ↦ ?_, ?_⟩
  · rw [List.eq_of_mem_replicate hc]
    decide
  · induction n using Nat.strong_induction_on with
    | _ n ih =>
      rw [Nat.toDigits_eq_if (by decide)]
      split
      · next hlt => exact List.forall_mem_singleton.mpr (hdigit n hlt)
      · next hle =>
        refine isAscii_append.mpr ⟨ih (n / 16) (by omega), List.forall_mem_singleton.mpr ?_⟩
        exact hdigit _ (Nat.mod_lt n (by decide))

theorem isAscii_unitEscape (n : Nat) : (unitEscape n).IsAscii :=
  isAscii_append.mpr ⟨(by decide : IsAscii ['\\', 'u']), isAscii_hex 4 n⟩

theorem isAscii_jsonChar (c : Char) : (jsonChar c).IsAscii := by
  rw [jsonChar]
  split_ifs with hquote hn hr ht hb hf hplain hbasic
  · rcases Bool.or_eq_true_iff.mp hquote with h | h
    · rw [eq_of_beq h]
      decide
    · rw [eq_of_beq h]
      decide
  · decide
  · decide
  · decide
  · decide
  · decide
  · simp only [Bool.and_eq_true, decide_eq_true_eq] at hplain
    exact List.forall_mem_singleton.mpr (Nat.lt_succ_of_lt hplain.2)
  · exact isAscii_unitEscape _
  · exact isAscii_append.mpr ⟨isAscii_unitEscape _, isAscii_unitEscape _⟩

theorem isAscii_jsonString (t : Text) : (jsonString t).IsAscii := by
  have hchars : IsAscii (t.flatMap jsonChar) := by
    intro c hc
    obtain ⟨d, -, hc⟩ := List.mem_flatMap.mp hc
    exact isAscii_jsonChar d c hc
  exact isAscii_append.mpr ⟨List.forall_mem_cons.mpr ⟨by decide, hchars⟩, by decide⟩

theorem isAscii_toString (n : Int) : IsAscii (toString n).toList := by
  intro c hc
  rcases Json.isDigit_or_eq_of_mem_toString hc with hc | rfl
  · have hle : c.toNat ≤ '9'.toNat := (Char.isDigit_iff_toNat.mp hc).2
    exact Nat.lt_of_le_of_lt hle (by decide)
  · decide

theorem isAscii_newLine (indent : Nat) : (newLine indent).IsAscii := by
  refine List.forall_mem_cons.mpr ⟨by decide, fun c hc ↦ ?_⟩
  rw [List.eq_of_mem_replicate hc]
  decide

theorem isAscii_intercalate {sep : Text} {items : List Text} (hsep : sep.IsAscii)
    (hitems : ∀ t ∈ items, IsAscii t) : IsAscii (sep.intercalate items) := by
  induction items with
  | nil => exact fun c hc ↦ absurd hc List.not_mem_nil
  | cons t items ih =>
    obtain ⟨ht, hitems⟩ := List.forall_mem_cons.mp hitems
    cases items with
    | nil => rwa [List.intercalate_singleton]
    | cons t' items =>
      rw [List.intercalate_cons_cons]
      exact isAscii_append.mpr ⟨isAscii_append.mpr ⟨ht, hsep⟩, ih hitems⟩

theorem isAscii_bracketed {first last : Char} (hfirst : first.toNat < 0x80)
    (hlast : last.toNat < 0x80) (indent : Nat) {items : List Text}
    (hitems : ∀ t ∈ items, IsAscii t) : (bracketed first last indent items).IsAscii := by
  rw [bracketed]
  split
  · exact List.forall_mem_cons.mpr ⟨hfirst, List.forall_mem_singleton.mpr hlast⟩
  · have hcomma : IsAscii (',' :: newLine (indent + 2)) :=
      List.forall_mem_cons.mpr ⟨by decide, isAscii_newLine _⟩
    have hopen : IsAscii (first :: newLine (indent + 2)) :=
      List.forall_mem_cons.mpr ⟨hfirst, isAscii_newLine _⟩
    exact isAscii_append.mpr ⟨isAscii_append.mpr ⟨isAscii_append.mpr
      ⟨hopen, isAscii_intercalate hcomma hitems⟩, isAscii_newLine _⟩,
      List.forall_mem_singleton.mpr hlast⟩

namespace Json

mutual

theorem isAscii_render (indent : Nat) : ∀ v : Json, (v.render indent).IsAscii
  | .number n => by
    rw [render]
    exact isAscii_toString n
  | .string t => by
    rw [render]
    exact isAscii_jsonString t
  | .array items => by
    rw [render]
    exact isAscii_bracketed (by decide) (by decide) indent (isAscii_renderItems (indent + 2) items)
  | .object fields => by
    rw [render]
    exact isAscii_bracketed (by decide) (by decide) indent
      (isAscii_renderFields (indent + 2) fields)

theorem isAscii_renderItems (indent : Nat) :
    ∀ items : List Json, ∀ t ∈ renderItems indent items, t.IsAscii
  | [] => by
    rw [renderItems]
    exact fun t ht ↦ absurd ht List.not_mem_nil
  | v :: rest => by
    rw [renderItems]
    exact List.forall_mem_cons.mpr ⟨isAscii_render indent v, isAscii_renderItems indent rest⟩

theorem isAscii_renderFields (indent : Nat) :
    ∀ fields : List (Text × Json), ∀ t ∈ renderFields indent fields, t.IsAscii
  | [] => by
    rw [renderFields]
    exact fun t ht ↦ absurd ht List.not_mem_nil
  | (k, v) :: rest => by
    rw [renderFields]
    refine List.forall_mem_cons.mpr ⟨?_, isAscii_renderFields indent rest⟩
    exact isAscii_append.mpr
      ⟨isAscii_append.mpr ⟨isAscii_jsonString k, by decide⟩, isAscii_render indent v⟩

end

end Json

/-! ## Reports shown and stored -/

/-- What `report .json` shows is the text of its entries and errors, whatever texts are in them: it
is in ASCII, and reads back as a value that holds the same entries and errors in the same order.  A
file that the report goes to holds the same text without the line feed at the end. -/
theorem json_lossless :
    (∀ (entries : List Entry) (errors : List FileError),
      let shown := (Json.ofReport entries errors).render 0 ++ ['\n']
      Json.read? shown = some (Json.ofReport entries errors) ∧
      (Json.ofReport entries errors).report? = some (entries, errors) ∧ shown.IsAscii) ∧
    (∀ console findings errors, Command.report console .json findings errors =
      .ok ((Json.ofReport (findings.map Entry.ofLocated) errors).render 0 ++ ['\n'])) ∧
    ∀ console files (a : Command.AnalyzeArguments) findings errors file o,
      files.root.isDirectory = true → a.reportFile? = some file →
      Command.deliver console files a findings errors = .ok o → o.exitCode ≠ 2 →
      ∃ bytes stored, o.files.find? (Path.ofText file) = some (.file bytes) ∧
        Text.decode bytes = .ok stored ∧
        Command.report console .json findings errors = .ok (stored ++ ['\n']) := by
  refine ⟨fun entries errors ↦ ⟨?_, Json.report?_ofReport entries errors, ?_⟩, fun _ _ _ ↦ rfl, ?_⟩
  · exact Json.read?_render_append 0 _ (List.forall_mem_singleton.mpr rfl)
  · exact isAscii_append.mpr ⟨Json.isAscii_render 0 _, by decide⟩
  · intro console files a findings errors file o hroot hfile ho hcode
    rcases Command.deliver_spec hroot ho with ⟨hdelivered, -⟩ | ⟨-, hfailed, -⟩
    · rw [Command.Delivered, hfile] at hdelivered
      exact ⟨_, json findings errors, hdelivered, Text.decode_eq_ok_iff.mpr rfl, rfl⟩
    · exact absurd hfailed hcode

/-- A quote, a backslash, a line feed, and characters that take one escape and two. -/
def awkward : Text := ['"', '\\', '\n', '\x7f', 'é', '😀']

/-- A report with such a message, in a file of its own. -/
theorem json_lossless_awkward :
    let findings : List Located := [⟨awkward, ⟨.unreadable awkward, .error, -1, 7⟩, 1, 2⟩]
    let errors : List FileError := [⟨awkward, awkward⟩]
    let a : Command.AnalyzeArguments :=
      ⟨['.'], .json, some ['d', '/', 'r'], true, ['i', 'n', 'f', 'o'], .standard⟩
    ∃ shown o, Command.report terminal .json findings errors = .ok shown ∧
      Json.read? shown = some (Json.ofReport (findings.map Entry.ofLocated) errors) ∧
      Command.deliver terminal (.ofTree .empty) a findings errors = .ok o ∧ o.exitCode = 1 ∧
      ∃ bytes stored, o.files.find? (Path.ofText ['d', '/', 'r']) = some (.file bytes) ∧
        Text.decode bytes = .ok stored ∧ shown = stored ++ ['\n'] := by
  intro findings errors a
  obtain ⟨hread, hreport, hstored⟩ := json_lossless
  obtain ⟨o, ho, hcode⟩ : ∃ o, Command.deliver terminal (.ofTree .empty) a findings errors = .ok o ∧
      o.exitCode = 1 := ⟨_, rfl, rfl⟩
  obtain ⟨bytes, stored, hfind, hdecode, hshown⟩ :=
    hstored _ _ a findings errors _ o rfl rfl ho (by rw [hcode]; decide)
  have hsame := Except.ok.inj ((hreport terminal findings errors).symm.trans hshown)
  exact ⟨_, o, hreport terminal findings errors, (hread _ errors).1, ho, hcode, bytes, stored,
    hfind, hdecode, hsame⟩

end Report

end CodeHealth
