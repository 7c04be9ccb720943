import Stackwright.Proofs.Positions
import Stackwright.Proofs.Text.Lines

/-! The names that a program declares. In a program that is read without faults each of them is the text of an
identifier, so it has at least one character and no blanks. -/

set_option autoImplicit false

namespace Stackwright

mutual

/-- The names that a statement declares, those in the blocks inside of it included. -/
def Stmt.declaredNames : Stmt → List Name
  | .declare _ name _ _ => [name]
  | .branch _ thenBlock none _ => thenBlock.declaredNames
  | .branch _ thenBlock (some elseBlock) _ => thenBlock.declaredNames ++ elseBlock.declaredNames
  | .nested body => body.declaredNames
  | .assign _ _ _ | .ret _ _ | .call _ _ | .print _ _ | .invalid _ => []

def Block.declaredNames : Block → List Name
  | .mk statements _ => Stmt.declaredNamesAll statements

def Stmt.declaredNamesAll : List Stmt → List Name
  | [] => []
  | first :: rest => first.declaredNames ++ Stmt.declaredNamesAll rest

end

/-- The name of a function and the names that are declared in it. -/
def Function.declaredNames (function : Function) : List Name :=
  function.name :: (function.parameters.map Parameter.name ++ function.body.declaredNames)

def Program.declaredNames (program : Program) : List Name :=
  program.functions.flatMap Function.declaredNames ++ program.main.declaredNames

/-- Each of the names is the text of an identifier among the tokens. -/
def Name.AllIdentifiers (names : List Name) (tokens : List Token) : Prop :=
  ∀ name ∈ names, ∃ token ∈ tokens, token.kind = .identifier ∧ name.text = token.lexeme

namespace Name.AllIdentifiers

variable {name : Name} {names others : List Name} {token : Token} {tokens more : List Token}

theorem mono (among : AllIdentifiers names tokens) (wider : tokens ⊆ more) : AllIdentifiers names more := by
  intro name member
  obtain ⟨token, inside, spelled⟩ := among name member
  exact ⟨token, wider inside, spelled⟩

theorem nil (tokens : List Token) : AllIdentifiers [] tokens := List.forall_mem_nil _

theorem cons (named : Anchored.Named token name) (member : token ∈ tokens) (rest : AllIdentifiers names tokens) :
    AllIdentifiers (name :: names) tokens :=
  List.forall_mem_cons.mpr ⟨⟨token, member, named.kind, named.text⟩, rest⟩

theorem append (one : AllIdentifiers names tokens) (two : AllIdentifiers others tokens) :
    AllIdentifiers (names ++ others) tokens :=
  List.forall_mem_append.mpr ⟨one, two⟩

end Name.AllIdentifiers

namespace Anchored

open Name Grammar

mutual

theorem Statement.allIdentifiers {tokens : List Token} {stmt : Stmt} :
    Statement tokens stmt → AllIdentifiers stmt.declaredNames tokens
  | .declare _ named _ _ _ _ => .cons named (by grind) (.nil _)
  | .choose _ _ _ _ thenBlock _ => thenBlock.allIdentifiers.mono (by grind)
  | .chooseElse _ _ _ _ thenBlock _ elseBlock _ =>
    (thenBlock.allIdentifiers.mono (by grind)).append (elseBlock.allIdentifiers.mono (by grind))
  | .nested body => body.allIdentifiers
  | .assign _ _ _ _ _ | .print _ _ _ _ _ | .call _ _ _ _ | .ret _ _ _ | .retValue _ _ _ _ => .nil _

theorem Block.allIdentifiers {tokens : List Token} {block : Stackwright.Block} :
    Block tokens block → AllIdentifiers block.declaredNames tokens
  | .braces _ statements _ _ => (allIdentifiers_statements statements).mono (by grind)

theorem allIdentifiers_statements {tokens : List Token} {statements : List Stmt} :
    Sequence Statement tokens statements → AllIdentifiers (Stmt.declaredNamesAll statements) tokens
  | .nil => .nil _
  | .cons first rest =>
    (first.allIdentifiers.mono (by grind)).append ((allIdentifiers_statements rest).mono (by grind))

end

theorem allIdentifiers_parameters {tokens : List Token} {parameters : List Stackwright.Parameter}
    (divided : Divided Parameter tokens parameters) : AllIdentifiers (parameters.map Parameter.name) tokens := by
  induction divided with
  | last first =>
    cases first with
    | mk _ _ named _ => exact .cons named (by grind) (.nil _)
  | more first _ _ ih =>
    cases first with
    | mk _ _ named _ => exact .cons named (by grind) (ih.mono (by grind))

theorem Function.allIdentifiers {tokens : List Token} {function : Stackwright.Function}
    (anchored : Function tokens function) : AllIdentifiers function.declaredNames tokens := by
  cases anchored with
  | @mk word type identifier result name list inner parameters listNode body node
      _ _ named listed _ block _ =>
    have parts : AllIdentifiers (parameters.map Parameter.name) list := by
      cases listed with
      | none => exact .nil _
      | some _ divided _ => exact (allIdentifiers_parameters divided).mono (by grind)
    exact .cons named (by grind) ((parts.mono (by grind)).append (block.allIdentifiers.mono (by grind)))

theorem allIdentifiers_functions {tokens : List Token} {functions : List Stackwright.Function}
    (sequence : Sequence Function tokens functions) :
    AllIdentifiers (functions.flatMap Function.declaredNames) tokens := by
  induction sequence with
  | nil => exact .nil _
  | cons first _ ih =>
    rw [List.flatMap_cons]
    exact (first.allIdentifiers.mono (by grind)).append (ih.mono (by grind))

/-- Every name that an anchored program declares is one of its identifiers. -/
theorem Program.allIdentifiers {tokens : List Token} {program : Stackwright.Program}
    (anchored : Program tokens program) : AllIdentifiers program.declaredNames tokens := by
  cases anchored with
  | mk functions _ main _ =>
    exact ((allIdentifiers_functions functions).mono (by grind)).append (main.allIdentifiers.mono (by grind))

end Anchored

namespace Munch

theorem isBlank_of_continuesName {c : Char} (continues : continuesName c = true) : Text.isBlank c = false := by
  have ascii : 37 < c.toNat ∧ c.toNat < 128 := by
    by_cases starts : startsName c = true
    · have bounds := bounds_of_startsName starts
      omega
    · have digit : c.isDigit = true := by
        simp only [continuesName, startsName, Char.isAlphanum, Bool.or_eq_true] at continues starts
        tauto
      have bounds := bounds_of_isDigit digit
      omega
  exact (Text.visible_of_ascii ascii.1 ascii.2).1

end Munch

namespace Scan

open Text

/-- An identifier has at least one character and no blanks. -/
theorem solid_identifier {text : String} {token : Token} (member : token ∈ (ofText text).tokens)
    (identifier : token.kind = .identifier) : Solid token.lexeme := by
  have all : ∀ token ∈ (ofText text).tokens, token.kind = .identifier → Solid token.lexeme := by
    refine forall_tokens (fun first rest kind span accepted isIdentifier => ?_) _ _ _
    obtain rfl : kind = .identifier := isIdentifier
    refine ⟨fun empty => (Munch.cuts_piece first rest).taken (String.ofList_eq_empty_iff.mp empty), ?_⟩
    intro c among
    rw [String.toList_ofList] at among
    exact Munch.isBlank_of_continuesName (Munch.piece_identifier accepted c among)
  exact all token member identifier

end Scan

/-- The names of a program that is read without faults are not empty and have no blanks in them. -/
theorem Program.solid_of_parse {source : String} {program : Program} (parsed : Program.parse source = .ok program) :
    ∀ name ∈ program.declaredNames, Text.Solid name.text := by
  intro name member
  obtain ⟨token, among, identifier, spelled⟩ := (anchored_of_parse parsed).allIdentifiers name member
  exact spelled ▸ Scan.solid_identifier among identifier

end Stackwright
