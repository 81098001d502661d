/-
# What the printed outline of a file says

An outline can be read back from its text. The text of a value starts with a character
that tells its form, every part of it shows where it ends, and what follows a number is
no digit; so no text is that of two values (`Json.pretty_injective`). The value in turn
holds all of the outline: each form of it has its own keys, in an order of their own, and
no key stands twice in an object (`FileOutline.pretty_faithful`).

Key definitions: `Json.form`, `Json.KeysDiffer`.
Key theorems: `Json.eq_of_write_append`, `Json.pretty_injective`,
`FileOutline.toJson_injective`, `FileOutline.pretty_faithful`.
-/
import FetchClients.Program
import FetchClients.Proofs.JsonReading
import Mathlib.Logic.Function.Basic

namespace FetchClients
namespace Json

/-! ### Texts of values, with what follows them -/

variable {rest more : List Char}

/-- A string ends at its last quote. -/
theorem eq_of_quote_append {s t : String} (h : quote s ++ rest = quote t ++ more) :
    s = t ∧ rest = more := by
  simp only [quote, List.cons_append, List.append_assoc, List.nil_append, List.cons.injEq,
    true_and] at h
  have hread := congrArg (stringRest true) h
  rw [stringRest_of_spellsChars (spellsChars_flatMap_escape s.toList),
    stringRest_of_spellsChars (spellsChars_flatMap_escape t.toList)] at hread
  simp only [Except.ok.injEq, Prod.mk.injEq, String.toList_inj] at hread
  exact hread

/-- A number ends at the first character that is no digit. -/
theorem eq_of_digits_append {m n : Nat} (hrest : EndsDigits rest) (hmore : EndsDigits more)
    (h : (toString m).toList ++ rest = (toString n).toList ++ more) : m = n ∧ rest = more := by
  have hread := congrArg digits h
  rw [digits_append (isDigits_toString m).2 hrest,
    digits_append (isDigits_toString n).2 hmore] at hread
  simp only [Except.ok.injEq, Prod.mk.injEq, toList_toString_nat] at hread
  have hvalue := congrArg (Nat.ofDigitChars 10 · 0) hread.1
  simp only [Nat.ofDigitChars_ten_toDigits] at hvalue
  exact ⟨hvalue, hread.2⟩

/-- The form of a value, as its first character tells it. -/
def form : Json → Char
  | null => 'n'
  | bool true => 't'
  | bool false => 'f'
  | nat _ => '0'
  | str _ => '"'
  | arr _ => '['
  | obj _ => '\x7b'

/-- The form that a first character tells. -/
def formOf (c : Char) : Char :=
  if c.isDigit then '0' else c

theorem head?_write (depth : Nat) (v : Json) : (write depth v).head?.map formOf = some v.form := by
  cases v with
  | null => rfl
  | bool b => cases b <;> rfl
  | nat n =>
    obtain ⟨d, ds, hdigits, hd⟩ := exists_digit_of_isDigits (isDigits_toString n)
    rw [write, hdigits]
    simp [formOf, hd, form]
  | str s => rfl
  | arr items => cases items <;> rfl
  | obj entries => cases entries <;> rfl

/-- Texts that start alike are texts of one form. -/
theorem form_eq_of_write_append {depth : Nat} {v w : Json}
    (h : write depth v ++ rest = write depth w ++ more) : v.form = w.form := by
  have hhead : ∀ (u : Json) (after : List Char),
      (write depth u ++ after).head?.map formOf = some u.form := fun u after => by
    rw [← head?_write depth u, List.head?_append]
    cases hu : (write depth u).head? with
    | none => simpa [hu] using head?_write depth u
    | some c => rfl
  have heq := hhead v rest
  rw [h, hhead w more] at heq
  exact (Option.some.inj heq).symm

theorem endsDigits_writeItems (depth : Nat) (items : List Json) (rest : List Char) :
    EndsDigits (writeItems depth items ++ rest) := by
  cases items <;> simp [EndsDigits, writeItems, indent]

theorem endsDigits_writeEntries (depth : Nat) (entries : List (String × Json)) (rest : List Char) :
    EndsDigits (writeEntries depth entries ++ rest) := by
  rcases entries with _ | ⟨⟨key, value⟩, entries⟩ <;> simp [EndsDigits, writeEntries, indent]

mutual

/-- The text of a value shows where it ends, and whose it is. -/
theorem eq_of_write_append (depth : Nat) : ∀ (v : Json) {w : Json} {rest more : List Char},
    EndsDigits rest → EndsDigits more → write depth v ++ rest = write depth w ++ more →
      v = w ∧ rest = more
  | null, w, rest, more, _, _, h => by
    -- Here and below, the form leaves one constructor for the other value.
    have hform := form_eq_of_write_append h
    cases w with
    | null => exact ⟨rfl, List.append_cancel_left h⟩
    | bool b => cases b <;> cases hform
    | _ => cases hform
  | bool b, w, rest, more, _, _, h => by
    have hform := form_eq_of_write_append h
    cases w with
    | bool a =>
      obtain rfl : b = a := by cases b <;> cases a <;> first | rfl | cases hform
      exact ⟨rfl, List.append_cancel_left h⟩
    | _ => cases b <;> cases hform
  | nat n, w, rest, more, hrest, hmore, h => by
    have hform := form_eq_of_write_append h
    cases w with
    | nat m =>
      obtain ⟨rfl, heq⟩ := eq_of_digits_append hrest hmore h
      exact ⟨rfl, heq⟩
    | bool b => cases b <;> cases hform
    | _ => cases hform
  | str s, w, rest, more, _, _, h => by
    have hform := form_eq_of_write_append h
    cases w with
    | str t =>
      obtain ⟨rfl, heq⟩ := eq_of_quote_append h
      exact ⟨rfl, heq⟩
    | bool b => cases b <;> cases hform
    | _ => cases hform
  | arr items, w, rest, more, _, _, h => by
    have hform := form_eq_of_write_append h
    cases w with
    | arr others =>
      cases items with
      | nil =>
        cases others with
        | nil => exact ⟨rfl, List.append_cancel_left h⟩
        | cons other others => simp [write, indent] at h
      | cons item items =>
        cases others with
        | nil => simp [write, indent] at h
        | cons other others =>
          have hitems : writeItems depth (item :: items) ++ rest =
              writeItems depth (other :: others) ++ more := by simpa [write, writeItems] using h
          obtain ⟨heq, hrest⟩ := eq_of_writeItems_append depth (item :: items) hitems
          exact ⟨by rw [heq], hrest⟩
    | bool b => cases b <;> cases hform
    | _ => cases hform
  | obj entries, w, rest, more, _, _, h => by
    have hform := form_eq_of_write_append h
    cases w with
    | obj others =>
      cases entries with
      | nil =>
        cases others with
        | nil => exact ⟨rfl, List.append_cancel_left h⟩
        | cons other others => simp [write, indent] at h
      | cons entry entries =>
        cases others with
        | nil => simp [write, indent] at h
        | cons other others =>
          have hentries : writeEntries depth (entry :: entries) ++ rest =
              writeEntries depth (other :: others) ++ more := by
            simpa [write, writeEntries] using h
          obtain ⟨heq, hrest⟩ := eq_of_writeEntries_append depth (entry :: entries) hentries
          exact ⟨by rw [heq], hrest⟩
    | bool b => cases b <;> cases hform
    | _ => cases hform

/-- So do the texts of further items. -/
theorem eq_of_writeItems_append (depth : Nat) : ∀ (items : List Json) {others : List Json}
    {rest more : List Char}, writeItems depth items ++ rest = writeItems depth others ++ more →
      items = others ∧ rest = more
  | [], others, rest, more, h => by
    cases others with
    | nil => exact ⟨rfl, List.append_cancel_left h⟩
    | cons other others => simp [writeItems, indent] at h
  | item :: items, others, rest, more, h => by
    cases others with
    | nil => simp [writeItems, indent] at h
    | cons other others =>
      simp only [writeItems, List.cons_append, List.append_assoc, List.cons.injEq, true_and,
        List.append_cancel_left_eq] at h
      obtain ⟨rfl, hitems⟩ := eq_of_write_append (depth + 1) item
        (endsDigits_writeItems depth items rest) (endsDigits_writeItems depth others more) h
      obtain ⟨rfl, hrest⟩ := eq_of_writeItems_append depth items hitems
      exact ⟨rfl, hrest⟩

/-- And of further entries. -/
theorem eq_of_writeEntries_append (depth : Nat) : ∀ (entries : List (String × Json))
    {others : List (String × Json)} {rest more : List Char},
    writeEntries depth entries ++ rest = writeEntries depth others ++ more →
      entries = others ∧ rest = more
  | [], others, rest, more, h => by
    rcases others with _ | ⟨⟨other, value⟩, others⟩
    · exact ⟨rfl, List.append_cancel_left h⟩
    · simp [writeEntries, indent] at h
  | (key, value) :: entries, others, rest, more, h => by
    rcases others with _ | ⟨⟨other, value'⟩, others⟩
    · simp [writeEntries, indent] at h
    · simp only [writeEntries, List.cons_append, List.append_assoc, List.cons.injEq, true_and,
        List.append_cancel_left_eq] at h
      obtain ⟨rfl, hvalue⟩ := eq_of_quote_append h
      simp only [List.nil_append, List.cons.injEq, true_and] at hvalue
      obtain ⟨rfl, hentries⟩ := eq_of_write_append (depth + 1) value
        (endsDigits_writeEntries depth entries rest) (endsDigits_writeEntries depth others more)
        hvalue
      obtain ⟨rfl, hrest⟩ := eq_of_writeEntries_append depth entries hentries
      exact ⟨rfl, hrest⟩

end

/-- **A text is that of one value.** -/
theorem pretty_injective : Function.Injective pretty := by
  intro v w h
  have hwrite : write 0 v ++ [] = write 0 w ++ [] := by
    simpa [pretty, ← String.toList_inj] using h
  have hends : EndsDigits [] := by simp [EndsDigits]
  exact (eq_of_write_append 0 v hends hends hwrite).1

/-! ### Keys -/

/-- Values in whose objects no key stands twice. -/
inductive KeysDiffer : Json → Prop where
  | null : KeysDiffer null
  | bool (value : Bool) : KeysDiffer (bool value)
  | nat (value : Nat) : KeysDiffer (nat value)
  | str (text : String) : KeysDiffer (str text)
  | arr {items : List Json} (h : ∀ item ∈ items, KeysDiffer item) : KeysDiffer (arr items)
  | obj {entries : List (String × Json)} (hkeys : (entries.map Prod.fst).Nodup)
      (h : ∀ entry ∈ entries, KeysDiffer entry.2) : KeysDiffer (obj entries)

attribute [simp] KeysDiffer.bool KeysDiffer.nat KeysDiffer.str

theorem ofOption_injective {α : Type} {f : α → Json} (hf : Function.Injective f)
    (hnull : ∀ a, f a ≠ null) : Function.Injective (ofOption f) := by
  intro a b h
  cases a with
  | none =>
    cases b with
    | none => rfl
    | some b => exact absurd h.symm (hnull b)
  | some a =>
    cases b with
    | none => exact absurd h (hnull a)
    | some b => rw [hf h]

theorem keysDiffer_ofOption {α : Type} {f : α → Json} (h : ∀ a, KeysDiffer (f a)) (a : Option α) :
    KeysDiffer (ofOption f a) := by
  cases a with
  | none => exact .null
  | some a => exact h a

theorem keysDiffer_arr_map {α : Type} {f : α → Json} (h : ∀ a, KeysDiffer (f a)) (as : List α) :
    KeysDiffer (arr (as.map f)) := by
  refine .arr fun item hitem => ?_
  obtain ⟨a, -, rfl⟩ := List.mem_map.mp hitem
  exact h a

end Json

open Json (KeysDiffer)

/-! ### Outlines -/

theorem Annotation.toJson_injective : Function.Injective Annotation.toJson := by
  rintro ⟨key, value⟩ ⟨key', value'⟩ h
  simpa [toJson] using h

theorem Annotation.keysDiffer_toJson (a : Annotation) : KeysDiffer a.toJson :=
  .obj (by simp) (by simp)

namespace TypeExpr

mutual

theorem toJson_inj : ∀ {t u : TypeExpr}, t.toJson = u.toJson → t = u
  | named name args, named name' args', h => by
    simp only [toJson, Json.obj.injEq, List.cons.injEq, Prod.mk.injEq, Json.str.injEq,
      Json.arr.injEq, true_and, and_true] at h
    rw [h.1, argsToJson_inj h.2]
  | named name args, other text, h => by simp [toJson] at h
  | other text, named name args, h => by simp [toJson] at h
  | other text, other text', h => by simpa [toJson] using h

theorem argsToJson_inj : ∀ {ts us : List TypeExpr}, argsToJson ts = argsToJson us → ts = us
  | [], [], _ => rfl
  | [], u :: us, h => by simp [argsToJson] at h
  | t :: ts, [], h => by simp [argsToJson] at h
  | t :: ts, u :: us, h => by
    simp only [argsToJson, List.cons.injEq] at h
    rw [toJson_inj h.1, argsToJson_inj h.2]

end

mutual

theorem keysDiffer_toJson : ∀ t : TypeExpr, KeysDiffer t.toJson
  | named name args => by
    have hargs := KeysDiffer.arr (keysDiffer_argsToJson args)
    have hfields : KeysDiffer (.obj [("name", .str name), ("args", .arr (argsToJson args))]) :=
      .obj (by simp) (by simp [hargs])
    exact .obj (by simp) (by simp [hfields])
  | other text => .obj (by simp) (by simp)

theorem keysDiffer_argsToJson : ∀ ts : List TypeExpr, ∀ item ∈ argsToJson ts, KeysDiffer item
  | [] => by simp [argsToJson]
  | t :: ts => by
    simp only [argsToJson, List.forall_mem_cons]
    exact ⟨keysDiffer_toJson t, keysDiffer_argsToJson ts⟩

end

theorem toJson_ne_null (t : TypeExpr) : t.toJson ≠ .null := by
  cases t <;> simp [toJson]

theorem ofOption_toJson_injective : Function.Injective (Json.ofOption toJson) :=
  Json.ofOption_injective (fun _ _ => toJson_inj) toJson_ne_null

theorem keysDiffer_ofOption_toJson (t : Option TypeExpr) : KeysDiffer (Json.ofOption toJson t) :=
  Json.keysDiffer_ofOption keysDiffer_toJson t

end TypeExpr

theorem Param.toJson_injective : Function.Injective Param.toJson := by
  rintro ⟨name, type⟩ ⟨name', type'⟩ h
  simp only [toJson, Json.obj.injEq, List.cons.injEq, Prod.mk.injEq, Json.str.injEq, true_and,
    and_true] at h
  rw [h.1, TypeExpr.ofOption_toJson_injective h.2]

theorem Param.keysDiffer_toJson (p : Param) : KeysDiffer p.toJson :=
  .obj (by simp) (by simp [TypeExpr.keysDiffer_ofOption_toJson])

/-- The entries of the kinds of members differ, and nothing of a kind is left out. -/
theorem Member.toJson_injective : Function.Injective Member.toJson := by
  rintro ⟨name, kind, optional, line⟩ ⟨name', kind', optional', line'⟩ h
  cases kind with
  | property type =>
    cases kind' with
    | property type' =>
      simp only [toJson, MemberKind.entries, List.cons_append, List.nil_append, Json.obj.injEq,
        List.cons.injEq, Prod.mk.injEq, Json.str.injEq, Json.bool.injEq, Json.nat.injEq, true_and,
        and_true] at h
      obtain ⟨rfl, htype, rfl, rfl⟩ := h
      rw [TypeExpr.ofOption_toJson_injective htype]
    | method params' returns' => simp [toJson, MemberKind.entries] at h
  | method params returns =>
    cases kind' with
    | property type' => simp [toJson, MemberKind.entries] at h
    | method params' returns' =>
      simp only [toJson, MemberKind.entries, List.cons_append, List.nil_append, Json.obj.injEq,
        List.cons.injEq, Prod.mk.injEq, Json.str.injEq, Json.bool.injEq, Json.nat.injEq,
        Json.arr.injEq, true_and, and_true] at h
      obtain ⟨rfl, hparams, hreturns, rfl, rfl⟩ := h
      rw [List.map_injective_iff.mpr Param.toJson_injective hparams,
        TypeExpr.ofOption_toJson_injective hreturns]

theorem Member.keysDiffer_toJson (m : Member) : KeysDiffer m.toJson := by
  have hparams := fun params => Json.keysDiffer_arr_map Param.keysDiffer_toJson params
  obtain ⟨name, kind, optional, line⟩ := m
  cases kind with
  | property type =>
    exact .obj (by simp [MemberKind.entries])
      (by simp [MemberKind.entries, TypeExpr.keysDiffer_ofOption_toJson])
  | method params returns =>
    exact .obj (by simp [MemberKind.entries])
      (by simp [MemberKind.entries, TypeExpr.keysDiffer_ofOption_toJson, hparams])

theorem DeclKind.label_injective : Function.Injective DeclKind.label := by
  intro a b h
  cases a <;> cases b <;> first | rfl | exact absurd h (by decide)

theorem TypeDecl.toJson_injective : Function.Injective TypeDecl.toJson := by
  rintro ⟨name, kind, line⟩ ⟨name', kind', line'⟩ h
  simp only [toJson, Json.obj.injEq, List.cons.injEq, Prod.mk.injEq, Json.str.injEq,
    Json.nat.injEq, true_and, and_true] at h
  obtain ⟨rfl, hkind, rfl⟩ := h
  rw [DeclKind.label_injective hkind]

theorem TypeDecl.keysDiffer_toJson (d : TypeDecl) : KeysDiffer d.toJson :=
  .obj (by simp) (by simp)

theorem SourceFile.toJson_injective : Function.Injective SourceFile.toJson := by
  rintro ⟨path, module⟩ ⟨path', module'⟩ h
  simpa [toJson] using h

theorem SourceFile.keysDiffer_toJson (s : SourceFile) : KeysDiffer s.toJson :=
  .obj (by simp) (by simp)

namespace Annotated

variable {α : Type} {f : α → Json}

/-- The entries of a node can be followed by others, with which they are not confused. -/
theorem entries_append_inj (hf : Function.Injective f) {a b : Annotated α}
    {more others : List (String × Json)} (h : a.entries f ++ more = b.entries f ++ others) :
    a = b ∧ more = others := by
  obtain ⟨node, annotations⟩ := a
  obtain ⟨node', annotations'⟩ := b
  simp only [entries, List.cons_append, List.nil_append, List.cons.injEq, Prod.mk.injEq,
    Json.arr.injEq, true_and] at h
  obtain ⟨hnode, hannotations, hmore⟩ := h
  rw [hf hnode, List.map_injective_iff.mpr Annotation.toJson_injective hannotations]
  exact ⟨rfl, hmore⟩

theorem keysDiffer_entries (hf : ∀ node, KeysDiffer (f node)) (a : Annotated α) :
    ∀ entry ∈ a.entries f, KeysDiffer entry.2 := by
  have hannotations := Json.keysDiffer_arr_map Annotation.keysDiffer_toJson a.annotations
  simp [entries, hf, hannotations]

end Annotated

/-- A member with its annotations as JSON. -/
theorem field_injective :
    Function.Injective fun field : Annotated Member => Json.obj (field.entries Member.toJson) := by
  intro a b h
  have hentries : a.entries Member.toJson ++ [] = b.entries Member.toJson ++ [] := by
    rw [List.append_nil, List.append_nil, Json.obj.inj h]
  exact (Annotated.entries_append_inj Member.toJson_injective hentries).1

theorem keysDiffer_field (field : Annotated Member) :
    KeysDiffer (.obj (field.entries Member.toJson)) :=
  .obj (by simp [Annotated.entries]) (field.keysDiffer_entries Member.keysDiffer_toJson)

theorem TypeOutline.toJson_injective : Function.Injective TypeOutline.toJson := by
  rintro ⟨decl, fields⟩ ⟨decl', fields'⟩ h
  obtain ⟨rfl, hfields⟩ :=
    Annotated.entries_append_inj TypeDecl.toJson_injective (Json.obj.inj h)
  simp only [List.cons.injEq, Prod.mk.injEq, Json.arr.injEq, true_and, and_true] at hfields
  rw [List.map_injective_iff.mpr field_injective hfields]

theorem TypeOutline.keysDiffer_toJson (t : TypeOutline) : KeysDiffer t.toJson := by
  have hfields := Json.keysDiffer_arr_map keysDiffer_field t.fields
  refine .obj (by simp [Annotated.entries]) fun entry hentry => ?_
  rcases List.mem_append.mp hentry with hdecl | hlast
  · exact t.decl.keysDiffer_entries TypeDecl.keysDiffer_toJson entry hdecl
  · obtain rfl := List.mem_singleton.mp hlast
    exact hfields

namespace FileOutline

/-- The value that is printed holds all of the outline. -/
theorem toJson_injective : Function.Injective toJson := by
  rintro ⟨file, types⟩ ⟨file', types'⟩ h
  obtain ⟨rfl, htypes⟩ :=
    Annotated.entries_append_inj SourceFile.toJson_injective (Json.obj.inj h)
  simp only [List.cons.injEq, Prod.mk.injEq, Json.arr.injEq, true_and, and_true] at htypes
  rw [List.map_injective_iff.mpr TypeOutline.toJson_injective htypes]

/-- No entry of an outline hides another. -/
theorem keysDiffer_toJson (o : FileOutline) : KeysDiffer o.toJson := by
  have htypes := Json.keysDiffer_arr_map TypeOutline.keysDiffer_toJson o.types
  refine .obj (by simp [Annotated.entries]) fun entry hentry => ?_
  rcases List.mem_append.mp hentry with hfile | hlast
  · exact o.file.keysDiffer_entries SourceFile.keysDiffer_toJson entry hfile
  · obtain rfl := List.mem_singleton.mp hlast
    exact htypes

theorem finish_ofInspection (colours verbose : Bool) (path : String) (o : FileOutline) :
    Program.finish colours true (Report.ofInspection path (.ok o) verbose) =
      .finished true (o.toJson.pretty ++ "\n") "" := by
  cases colours <;>
    simp [Program.finish, Report.ofInspection, Report.renderLines, Report.Piece.render,
      Report.Piece.plain, Report.Style.codes]

theorem printed_injective : Function.Injective fun o : FileOutline => o.toJson.pretty ++ "\n" := by
  intro o o' h
  have htext : o.toJson.pretty.toList ++ ['\n'] = o'.toJson.pretty.toList ++ ['\n'] := by
    simpa [← String.toList_inj] using h
  have hpretty := String.toList_inj.mp (List.append_cancel_right htext)
  exact toJson_injective (Json.pretty_injective hpretty)

/-- **What is printed of a file says all of its outline.** Different outlines have different texts;
one decoder finds the outline in whatever a run that inspects a file prints of it; and no object of
the text has a key twice. -/
theorem pretty_faithful :
    (Function.Injective fun o : FileOutline => o.toJson.pretty) ∧
      (∃ decode : String → Option FileOutline, ∀ colours verbose path o, ∃ out,
        Program.finish colours true (Report.ofInspection path (.ok o) verbose) =
          .finished true out "" ∧ decode out = some o) ∧
      ∀ o : FileOutline, KeysDiffer o.toJson := by
  refine ⟨Json.pretty_injective.comp toJson_injective, ?_, keysDiffer_toJson⟩
  refine ⟨Function.partialInv fun o => o.toJson.pretty ++ "\n", fun colours verbose path o =>
    ⟨_, finish_ofInspection colours verbose path o, ?_⟩⟩
  exact Function.partialInv_left printed_injective o

end FileOutline
end FetchClients
