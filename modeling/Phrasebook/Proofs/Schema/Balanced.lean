import Phrasebook.Proofs.OrderedMap
import Phrasebook.Proofs.Schema.Merger
import Phrasebook.Proofs.Template.Balanced

/-! # The scripts of a schema are balanced

Every script that a schema holds comes from the compiler of templates. So all of them are balanced,
however the documents were added (`balanced_addDocuments`). -/

namespace Phrasebook

/-- The scripts of all locales of a key are balanced. -/
structure Entry.Balanced (e : Entry) : Prop where
  expressions : ∀ p ∈ e.expressions, Lexer.Balanced p.2
  fragments : ∀ p ∈ e.fragments, Lexer.Balanced p.2

/-- All scripts of a schema are balanced. -/
def Catalogue.Balanced (c : Catalogue) : Prop := ∀ p ∈ c.entries, p.2.Balanced

theorem Entry.balanced_new (path : KeyPath) (signature : Signature) :
    Entry.Balanced { path, signature } :=
  ⟨List.forall_mem_nil _, List.forall_mem_nil _⟩

theorem Entry.Balanced.add {e : Entry} (h : e.Balanced) (locale : Text)
    {compiled : CompiledTemplate} (hexpression : Lexer.Balanced compiled.expression)
    (hfragment : ∀ t, compiled.fragment = some t → Lexer.Balanced t) :
    (e.add locale compiled).Balanced where
  expressions := OrderedMap.forall_mem_put h.expressions locale hexpression
  fragments := by
    unfold Entry.add
    cases hs : e.signature.hasFormatters with
    | false => exact h.fragments
    | true =>
      cases hf : compiled.fragment with
      | none => exact h.fragments
      | some t => exact OrderedMap.forall_mem_put h.fragments locale (hfragment t hf)

namespace Catalogue

theorem Balanced.addText {c c' : Catalogue} (hc : c.Balanced) {path : KeyPath}
    {locale value : Text} (h : (c.addText Template.compiler path locale value).outcome = .ok c') :
    c'.Balanced := by
  obtain ⟨arena, compiled, hcompiled, hadded⟩ := addText_eq_ok h
  obtain ⟨hexpression, hfragment⟩ := Template.balanced_compiler hcompiled
  rcases hadded with ⟨-, rfl⟩ | ⟨e, he, -, rfl⟩
  · exact OrderedMap.forall_mem_put hc _
      ((Entry.balanced_new path compiled.signature).add locale hexpression hfragment)
  · have hentry : e.Balanced := hc _ (OrderedMap.mem_of_get? he)
    exact OrderedMap.forall_mem_put hc _ (hentry.add locale hexpression hfragment)

/-- **All scripts of a schema are balanced** after documents were added. -/
theorem balanced_addDocuments {guard : NestingGuard} {documents : List Document} {c : Catalogue}
    (h : (addDocuments Template.compiler guard {} documents).outcome = .ok c) : c.Balanced := by
  have hempty : Balanced {} := List.forall_mem_nil _
  exact addDocuments_induction (fun _ hc => hc) (fun hc h => hc.addText h) hempty h

/-- The scripts of the key of a path are balanced. -/
theorem Balanced.entry? {c : Catalogue} (h : c.Balanced) {path : KeyPath} {e : Entry}
    (he : c.entries.get? path.key = some e) : e.Balanced :=
  h _ (OrderedMap.mem_of_get? he)

end Catalogue

end Phrasebook
