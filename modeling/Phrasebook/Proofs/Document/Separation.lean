import Phrasebook.Document.Basic
import Phrasebook.Proofs.Document.Blanking
import Phrasebook.Proofs.Json.Decode
import Phrasebook.Proofs.Json.Grammar

/-! # Comments between tokens

A document is laid out as tokens with blanks and comments between them (`LaidOut`). No token holds
what is taken for a comment, so just the comments are blanked (`LaidOut.blank_eq`), and the document
decodes as it would with spaces in their place (`decode_laidOut`). -/

namespace Phrasebook.Document

open Comments

/-! ### Documents laid out -/

/-- A stretch of a document. -/
inductive Stretch where
  | token (t : Text)
  | blank (c : CodePoint)
  | comment (t : Text)

/-- The text of a stretch. -/
def Stretch.text : Stretch → Text
  | token t | comment t => t
  | blank c => [c]

/-- The text of a stretch with spaces in place of comments; their line breaks stay. -/
def Stretch.spaces : Stretch → Text
  | token t => t
  | blank c => [c]
  | comment t => t.map blankPoint

/-- **A document laid out**: tokens, with blanks and comments between them. -/
inductive LaidOut : List Stretch → Prop where
  | nil : LaidOut []
  | token {t : Text} {rest : List Stretch} (ht : Json.IsToken t) (h : LaidOut rest) :
    LaidOut (.token t :: rest)
  | blank {c : CodePoint} {rest : List Stretch} (hc : Json.isBlank c = true) (h : LaidOut rest) :
    LaidOut (.blank c :: rest)
  | comment {t : Text} {rest : List Stretch} (ht : IsComment t (rest.flatMap Stretch.text))
    (h : LaidOut rest) : LaidOut (.comment t :: rest)

/-- **Just the comments are blanked.** -/
theorem LaidOut.blank_eq {stretches : List Stretch} (h : LaidOut stretches) :
    Comments.blank (stretches.flatMap Stretch.text) = stretches.flatMap Stretch.spaces := by
  unfold Comments.blank
  induction h with
  | nil => rfl
  | token ht _ ih =>
    rw [List.flatMap_cons, Stretch.text, uncommented_of_isToken ht, ih]
    rfl
  | blank hc _ ih =>
    rw [List.flatMap_cons, Stretch.text, uncommented_of_isBlank hc, ih]
    rfl
  | comment ht _ ih =>
    rw [List.flatMap_cons, Stretch.text, ht.blankFrom_eq, ih]
    rfl

theorem decode_congr {α : Type} {t u : Text} (source : Text)
    (h : Comments.blank t = Comments.blank u) : decode (α := α) t source = decode u source := by
  unfold decode
  rw [h]

/-- **Comments between tokens are like blanks.** A document laid out has the tree, or the failure,
that it has with spaces in place of its comments. Tokens and blanks alone stay as they are, and
such is every text that decodes as it stands. -/
theorem decode_laidOut {α : Type} :
    (∀ (stretches : List Stretch) (source : Text), LaidOut stretches →
      decode (α := α) (stretches.flatMap Stretch.text) source =
        decode (stretches.flatMap Stretch.spaces) source) ∧
    (∀ t : Text, Json.Spaced t → Comments.blank t = t) ∧
    (∀ (t : Text) (tree : Datum α), Json.decode t = .ok tree → Comments.blank t = t) := by
  refine ⟨fun stretches source h => decode_congr source ?_,
    fun t h => (uncommented_of_spaced h).blank_eq, fun t tree h => ?_⟩
  · rw [← h.blank_eq, blank_blank]
  · exact (uncommented_of_spaced (Json.spaced_of_decode h)).blank_eq

/-- Quotation marks in comments, the opening of a comment in a string literal after an escaped
quotation mark, and a comment that is not closed. -/
theorem decode_laidOut_quotes :
    decode (α := Foreign) "[// \"/*\n\"\\\"//\"]/* \" */ /*/" "de.json" =
        decode "[      \n\"\\\"//\"]           " "de.json" ∧
      Comments.blank "[ ]" = "[ ]" ∧ Comments.blank "\"//\"" = "\"//\"" := by
  obtain ⟨hlaidOut, hspaced, hdecode⟩ := decode_laidOut (α := Foreign)
  have hbegin : Json.IsToken "[" := .mark (by decide)
  have hend : Json.IsToken "]" := .mark (by decide)
  have hliteral : Json.IsToken "\"\\\"//\"" := by
    have hquote : Json.IsLetter [CodePoint.backslash, CodePoint.doubleQuote] := .short (by decide)
    have hslash : Json.IsLetter [slash] := .itself (by decide) (by decide) (by decide)
    have hall : ∀ letter ∈ [[CodePoint.backslash, CodePoint.doubleQuote], [slash], [slash]],
        Json.IsLetter letter := by
      simp only [List.forall_mem_cons]
      exact ⟨hquote, hslash, hslash, List.forall_mem_nil _⟩
    exact .literal hall
  have hline : IsComment (lineOpening ++ " \"/*") "\n\"\\\"//\"]/* \" */ /*/" :=
    .line (by decide) (by decide)
  have hblock : IsComment (blockOpening ++ (" \" " ++ blockClosing)) " /*/" := .block (by decide) _
  have hunclosed : IsComment (blockOpening ++ "/") [] := .unclosed (by decide)
  have hwhole : LaidOut [.token "[", .comment "// \"/*", .blank CodePoint.lf,
      .token "\"\\\"//\"", .token "]", .comment "/* \" */", .blank CodePoint.space,
      .comment "/*/"] :=
    .token hbegin (.comment hline (.blank rfl (.token hliteral (.token hend (.comment hblock
      (.blank rfl (.comment hunclosed .nil)))))))
  have hslashes : Text.Unpaired "//" :=
    Text.unpaired_cons_cons.mpr ⟨by decide, Text.unpaired_of_length_le le_rfl⟩
  refine ⟨hlaidOut _ "de.json" hwhole, ?_, ?_⟩
  · exact hspaced "[ ]" (.token hbegin (.blank rfl (.token hend .nil)))
  · exact hdecode "\"//\"" (.text "//") (Json.decode_of_decodes (Json.decodes_quoted hslashes))

end Phrasebook.Document
