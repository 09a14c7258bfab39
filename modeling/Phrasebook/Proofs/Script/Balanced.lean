import Phrasebook.Proofs.Script.Lexer
import Phrasebook.Proofs.Template.Names

/-! # Balanced script

Whatever composes script keeps it balanced: sequences, lists between brackets, calls and object
literals of balanced parts are balanced (`balanced_concat`, `balanced_enclosed`, `balanced_call`,
`balanced_object`), and so are names and numerals. -/

namespace Phrasebook.Lexer

/-! ### Names and numerals -/

/-- The code points that mean something to the lexer in code. -/
def codeSpecial : List CodePoint :=
  [CodePoint.ofChar '(', CodePoint.ofChar '[', CodePoint.openBrace, CodePoint.ofChar ')',
    CodePoint.ofChar ']', CodePoint.closeBrace, CodePoint.doubleQuote, CodePoint.backtick,
    CodePoint.ofChar '/', CodePoint.singleQuote, CodePoint.backslash]

theorem isPlain_of_not_mem {c : CodePoint} (h : c ∉ codeSpecial) : IsPlain c := by
  simp only [codeSpecial, List.mem_cons, List.not_mem_nil, or_false, not_or] at h
  simp [IsPlain, State.step, State.codeStep, opened?, isCloser, h]

theorem isPlain_of_isNamePart {c : CodePoint} (h : Template.isNamePart c = true) : IsPlain c := by
  refine isPlain_of_not_mem fun hc => ?_
  rw [(by decide : ∀ d ∈ codeSpecial, Template.isNamePart d = false) c hc] at h
  cases h

theorem balanced_name {name : Text} (h : Template.isName name) : Balanced name :=
  balanced_of_plain fun _ hc => isPlain_of_isNamePart (Template.isNamePart_of_mem h hc)

theorem balanced_ofNat (n : Nat) : Balanced (Numeral.ofNat n) := by
  refine balanced_of_plain fun c hc => isPlain_of_not_mem fun hspecial => ?_
  obtain ⟨d, hd, rfl⟩ := List.mem_map.mp hc
  have hdigit := Nat.isDigit_of_mem_toDigits (by decide) (by decide) hd
  have hrange : 48 ≤ d.toNat ∧ d.toNat ≤ 57 := by
    simpa [Char.isDigit, UInt32.le_iff_toNat_le] using hdigit
  have hfar : ∀ e ∈ codeSpecial, ¬(48 ≤ e.val ∧ e.val ≤ 57) := by decide
  exact hfar _ hspecial hrange

theorem balanced_ofInt (n : Int) : Balanced (Numeral.ofInt n) := by
  cases n with
  | ofNat n => exact balanced_ofNat n
  | negSucc n => exact (balanced_ofNat (n + 1)).cons (by decide)

/-! ### Composed script -/

theorem balanced_concat {parts : List Fragment} (h : ∀ f ∈ parts, Balanced f.render) :
    Balanced (Code.concat parts).render := by
  rw [Code.render_concat]
  refine balanced_flatten fun t ht => ?_
  obtain ⟨f, hf, rfl⟩ := List.mem_map.mp ht
  exact h f hf

theorem balanced_separated {separator : Text} (hseparator : Balanced separator)
    {parts : List Fragment} (h : ∀ f ∈ parts, Balanced f.render) :
    Balanced (Code.join (Fragment.plain separator) parts).render := by
  rw [Code.render_join]
  refine balanced_join hseparator fun t ht => ?_
  obtain ⟨f, hf, rfl⟩ := List.mem_map.mp ht
  exact h f hf

/-- Balanced parts between brackets are balanced. -/
theorem balanced_enclosed {before after : Text} (henclose : Encloses before after)
    (parts : List Fragment) (h : ∀ f ∈ parts, Balanced f.render) :
    Balanced (Code.concat (Fragment.plain before :: (parts ++ [Fragment.plain after]))).render := by
  have hparts := henclose.balanced (balanced_concat h)
  rw [Code.render_concat] at hparts ⊢
  simpa using hparts

theorem balanced_bracketed {before after : Text} (henclose : Encloses before after)
    {part : Fragment} (h : Balanced part.render) :
    Balanced (Code.concat [Fragment.plain before, part, Fragment.plain after]).render :=
  balanced_enclosed henclose [part] (List.forall_mem_singleton.mpr h)

/-- A list of balanced parts between brackets is balanced. -/
theorem balanced_bracketedList {before after : Text} (henclose : Encloses before after)
    {separator : Text} (hseparator : Balanced separator) {parts : List Fragment}
    (h : ∀ f ∈ parts, Balanced f.render) :
    Balanced (Code.concat [Fragment.plain before, Code.join (Fragment.plain separator) parts,
      Fragment.plain after]).render :=
  balanced_bracketed henclose (balanced_separated hseparator h)

theorem balanced_call {callee : Text} (hcallee : Balanced callee) {arguments : List Fragment}
    (h : ∀ f ∈ arguments, Balanced f.render) :
    Balanced (Code.call (Fragment.plain callee) arguments).render := by
  have hseparator : Balanced ", " := by decide
  have henclose : Encloses "(" ")" := ⟨_, rfl, rfl⟩
  have hinner : Balanced (Text.join ", " (arguments.map Fragment.render)) := by
    rw [← Fragment.render_plain ", ", ← Code.render_join]
    exact balanced_separated hseparator h
  have hcall := hcallee.append (henclose.balanced hinner)
  rw [Code.render_call, Fragment.render_plain]
  simpa only [List.append_assoc] using hcall

/-- The name and the value of a property are balanced. -/
def BalancedProperty (p : Code.PropertyName × Fragment) : Prop :=
  Balanced (Code.propertyName [] p.1).render ∧ Balanced p.2.render

theorem balancedProperty_text (name : Text) {value : Fragment} (h : Balanced value.render) :
    BalancedProperty (.text name, value) :=
  ⟨balanced_quoted name, h⟩

theorem balanced_property {p : Code.PropertyName × Fragment} (h : BalancedProperty p) :
    Balanced (Code.property [] p.1 p.2).render := by
  obtain ⟨hname, hvalue⟩ := h
  have hcolon : Balanced ": " := by decide
  refine balanced_concat ?_
  rw [List.forall_mem_cons, List.forall_mem_cons, List.forall_mem_singleton]
  exact ⟨hname, hcolon, hvalue.indent 1⟩

/-- An object literal of balanced properties is balanced. -/
theorem balanced_object {properties : List (Code.PropertyName × Fragment)}
    (h : ∀ p ∈ properties, BalancedProperty p) : Balanced (Code.object properties).render := by
  cases properties with
  | nil => exact (by decide : Balanced [CodePoint.openBrace, CodePoint.closeBrace])
  | cons first rest =>
    have hproperties : ∀ f ∈ (first :: rest).map fun p =>
        Fragment.code (Code.property [] p.1 p.2), Balanced f.render := by
      intro f hf
      obtain ⟨p, hp, rfl⟩ := List.mem_map.mp hf
      exact balanced_property (h p hp)
    have henclose : Encloses (CodePoint.openBrace :: Code.firstBreak)
        [CodePoint.lf, CodePoint.closeBrace] := ⟨_, rfl, rfl⟩
    have hseparator : Balanced Code.entryBreak := by decide
    exact balanced_bracketedList henclose hseparator hproperties

end Phrasebook.Lexer
