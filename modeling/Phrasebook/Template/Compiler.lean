import Phrasebook.Schema.Signature
import Phrasebook.Script.Literal
import Phrasebook.Template.Element

/-! # Compiled templates

A template compiles to its signature, to a script expression that gives the text, and, if it has
formatters, to a second one that gives a list of parts. Without parameters the expression is a
string literal, else a function that gives a template literal.

Whoever compiles templates in another way supplies another `Compiler`. -/

namespace Phrasebook

/-- **What a template compiles to.** -/
structure CompiledTemplate where
  signature : Signature
  /-- The script of the text. -/
  expression : Text
  /-- The script of the parts, where the template has formatters. -/
  fragment : Option Text := none
deriving DecidableEq

/-- What is wrong with a template, as its compiler tells. The key and the locale are empty until the
template is known to be that of a key. -/
structure TemplateFault where
  complaint : Complaint
  key : Text := []
  locale : Text := []
  position : Int := 0
  reason : Text
deriving DecidableEq

namespace TemplateFault

/-- A fault; without a reason of its own the complaint is the reason. -/
def of (complaint : Complaint) (key locale : Text) (position : Int) (reason : Text) :
    TemplateFault :=
  ⟨complaint, key, locale, position, if reason.isEmpty then complaint.message else reason⟩

/-- The problem of a template that is that of a key in a locale. -/
def problem (f : TemplateFault) (key locale : Text) : Problem :=
  .templateSyntax key locale f.reason f.position

/-- The fault of a template that is that of a key in a locale. -/
def inContext (f : TemplateFault) (key locale : Text) : TemplateFault :=
  of (.diagnostic (f.problem key locale).diagnostic) key locale f.position f.reason

end TemplateFault

/-- How a compiler of templates fails. -/
inductive CompilerFault where
  | template (f : TemplateFault)
  | crash (c : Crash)
deriving DecidableEq

/-- A compiler of templates. -/
abbrev Compiler := Text → Except CompilerFault CompiledTemplate

namespace Template

/-! ### Signatures -/

/-- The names that stand for values, at any depth, in order. -/
def valueNames : List Element → List Text
  | [] => []
  | .text _ :: rest => valueNames rest
  | .value name :: rest => name :: valueNames rest
  | .formatter _ body :: rest => valueNames body ++ valueNames rest

/-- The names that stand for formatters, at any depth, in order. -/
def formatterNames : List Element → List Text
  | [] => []
  | .text _ :: rest => formatterNames rest
  | .value _ :: rest => formatterNames rest
  | .formatter name body :: rest => name :: (formatterNames body ++ formatterNames rest)

/-- The names that stand for a value and for a formatter, in order. -/
def clashes (elements : List Element) : List Text :=
  Sorted.ofList ((valueNames elements).filter fun name =>
    (formatterNames elements).contains name)

/-- The signature of a template; the least name that stands for both kinds is refused. -/
def signature (elements : List Element) : Except SyntaxFault Signature :=
  match clashes elements with
  | name :: _ => .error ⟨.bothKinds name, 0⟩
  | [] =>
    .ok (Signature.ofNames (valueNames elements ++ formatterNames elements)
      (formatterNames elements))

/-! ### Script -/

/-- The literal texts of a template. -/
def texts (elements : List Element) : List Text :=
  elements.filterMap fun
    | .text t => some t
    | _ => none

/-- The script of a parameter. -/
def parameterScript (name : Text) : Text := "params." ++ name

/-- The script of a formatter applied to the script of its body. -/
def applicationScript (name : Text) (body : Code) : Code :=
  Code.concat [Fragment.plain (parameterScript name ++ "("), body, Fragment.plain ")"]

/-- The first text of a template and its placeholders, each with the text after it. -/
def chunks : List Element → Text × List (Fragment × Text)
  | [] => ([], [])
  | .text t :: rest => (t ++ (chunks rest).1, (chunks rest).2)
  | .value name :: rest =>
    ([], (Fragment.plain (parameterScript name), (chunks rest).1) :: (chunks rest).2)
  | .formatter name body :: rest =>
    ([], (Fragment.code (applicationScript name (Code.template (chunks body).1 (chunks body).2)),
      (chunks rest).1) :: (chunks rest).2)

/-- The template literal of a template. -/
def literalScript (elements : List Element) : Code :=
  Code.template (chunks elements).1 (chunks elements).2

/-- The items of the list of parts. -/
def partItems : List Element → List Fragment
  | [] => []
  | .text t :: rest => .plain t.quoted :: partItems rest
  | .value name :: rest => .plain (parameterScript name) :: partItems rest
  | .formatter name body :: rest =>
    .code (applicationScript name (Code.concat [Fragment.plain "[",
      Code.join (Fragment.plain ", ") (partItems body), Fragment.plain "]"])) :: partItems rest

/-- The list of the parts of a template. -/
def partsScript (elements : List Element) : Code :=
  Code.concat [Fragment.plain "[", Code.join (Fragment.plain ", ") (partItems elements),
    Fragment.plain "]"]

/-- What opens a function of the parameters. -/
def functionHead : Text := "(params) => "

/-- The script of the text of a template. -/
def expressionScript (s : Signature) (elements : List Element) : Text :=
  if s.isEmpty then Text.quoted (texts elements).flatten
  else functionHead ++ (literalScript elements).render

/-- The script of the parts of a template. -/
def fragmentScript (s : Signature) (elements : List Element) : Option Text :=
  if s.hasFormatters then some (functionHead ++ (partsScript elements).render) else none

/-- A fault of the syntax, without a key. -/
def SyntaxFault.toTemplateFault (f : SyntaxFault) : TemplateFault :=
  TemplateFault.of (.diagnostic (Problem.templateError f.reason.message f.position).diagnostic) []
    [] f.position f.reason.message

/-- The elements of a template compiled. -/
def compileElements (elements : List Element) : Except SyntaxFault CompiledTemplate :=
  (signature elements).map fun s =>
    ⟨s, expressionScript s elements, fragmentScript s elements⟩

/-- **The compiler of brace templates.** -/
def compile (source : Text) : Except SyntaxFault CompiledTemplate :=
  (parse source).bind compileElements

/-- The compiler of brace templates as a stage of a merge. -/
def compiler : Compiler := fun source =>
  (compile source).mapError fun f => .template f.toTemplateFault

end Template

end Phrasebook
