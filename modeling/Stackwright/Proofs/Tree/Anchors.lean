import Stackwright.Proofs.Tree.Literals
import Stackwright.Proofs.Tree.Nodes
import Stackwright.Tree.Parser.Statement

/-! Where the nodes of a tree begin. A tree is anchored in the tokens that the grammar makes it from if each
of its nodes begins with the first of its own tokens. Parentheses that only group leave no node, so they do
not count: an operation begins with the first token that is no such parenthesis. In front of an expression
every opening parenthesis groups, since that of a call stands behind a name. -/

set_option autoImplicit false

namespace Stackwright

namespace Span

/-- The region begins where the token does. -/
def StartsAt (span : Span) (token : Token) : Prop :=
  span.line = token.span.line ∧ span.column = token.span.column

/-- The region begins with the first of the tokens that passes the test. -/
def StartsFirst (passes : Token → Bool) (span : Span) (tokens : List Token) : Prop :=
  ∃ token, tokens.find? passes = some token ∧ span.StartsAt token

/-- The region begins with the first of the tokens. -/
def Starts (span : Span) (tokens : List Token) : Prop := StartsFirst (fun _ => true) span tokens

/-- The region begins with the first of the tokens that is no opening parenthesis. -/
def StartsInside (span : Span) (tokens : List Token) : Prop :=
  StartsFirst (fun token => token.kind ≠ .mark .leftParen) span tokens

end Span

/-- The tokens begin one behind another. -/
def Token.Ordered (tokens : List Token) : Prop :=
  tokens.Pairwise fun one other => one.span.Precedes other.span

namespace Span

variable {first second : Span} {token other : Token} {passes : Token → Bool} {before rest : List Token}

theorem startsAt_self (token : Token) : token.span.StartsAt token := ⟨rfl, rfl⟩

theorem startsFirst_cons (span : Span) (passing : passes token = true) :
    span.StartsFirst passes (token :: rest) ↔ span.StartsAt token := by
  rw [StartsFirst, List.find?_cons_of_pos passing]
  exact ⟨fun ⟨_, found, starts⟩ => Option.some.inj found ▸ starts, fun starts => ⟨token, rfl, starts⟩⟩

theorem StartsFirst.append {span : Span} (starts : span.StartsFirst passes before) (rest : List Token) :
    span.StartsFirst passes (before ++ rest) := by
  obtain ⟨token, found, starts⟩ := starts
  exact ⟨token, by rw [List.find?_append, found, Option.some_or], starts⟩

theorem StartsFirst.cons_of_not {span : Span} (starts : span.StartsFirst passes rest) (skipped : ¬ passes token = true) :
    span.StartsFirst passes (token :: rest) := by
  obtain ⟨found, first, starts⟩ := starts
  exact ⟨found, by rw [List.find?_cons_of_neg skipped, first], starts⟩

/-- A region that begins no later than another one keeps its start when the two are merged. -/
theorem StartsAt.merge (one : first.StartsAt token) (two : second.StartsAt other)
    (onward : token = other ∨ token.span.Precedes other.span) : (first.merge second).StartsAt token := by
  obtain ⟨line, column⟩ := one
  obtain ⟨line', column'⟩ := two
  rw [Span.merge]
  split
  next together =>
    have later : first.column ≤ second.column := by
      rcases onward with rfl | below | ⟨-, right⟩
      · omega
      · omega
      · omega
    exact ⟨line, (Nat.min_eq_left later).trans column⟩
  next => exact ⟨line, column⟩

theorem StartsAt.merge_later (one : first.StartsAt token) (two : second.StartsAt other) (later : other ∈ rest)
    (ordered : Token.Ordered (token :: rest)) : (first.merge second).StartsAt token :=
  one.merge two (.inr ((List.pairwise_cons.mp ordered).1 other later))

/-- What is merged from the parts of a construct begins where the first part does. -/
theorem StartsFirst.merge (one : first.StartsFirst passes before) (two : ∃ other ∈ rest, second.StartsAt other)
    (ordered : Token.Ordered (before ++ rest)) : (first.merge second).StartsFirst passes (before ++ rest) := by
  obtain ⟨token, found, starts⟩ := one
  obtain ⟨other, among, starts'⟩ := two
  have precedes := (List.pairwise_append.mp ordered).2.2 token (List.mem_of_find?_eq_some found) other among
  exact StartsFirst.append ⟨token, found, starts.merge starts' (.inr precedes)⟩ rest

end Span

mutual

/-- The nodes of an expression, in the order of their numbers. -/
def Expr.nodes : Expr → List Node
  | .literal _ node => [node]
  | .named name => [name.node]
  | .binary _ left right node => left.nodes ++ (right.nodes ++ [node])
  | .unary _ operand node => operand.nodes ++ [node]
  | .call callee arguments list node => callee.node :: list :: (Expr.nodesAll arguments ++ [node])
  | .invalid node => [node]

def Expr.nodesAll : List Expr → List Node
  | [] => []
  | first :: rest => first.nodes ++ Expr.nodesAll rest

end

def PrintItem.nodes : PrintItem → List Node
  | .value expr => expr.nodes
  | .space _ | .newline _ => []

mutual

/-- The nodes of a statement. -/
def Stmt.nodes : Stmt → List Node
  | .declare _ name value node => node :: name.node :: value.nodes
  | .assign target value node => node :: target.node :: value.nodes
  | .branch condition thenBlock none node => node :: (condition.nodes ++ thenBlock.nodes)
  | .branch condition thenBlock (some elseBlock) node =>
    node :: (condition.nodes ++ (thenBlock.nodes ++ elseBlock.nodes))
  | .ret none node => [node]
  | .ret (some value) node => node :: value.nodes
  | .call call node => node :: call.expr.nodes
  | .print items node => node :: items.flatMap PrintItem.nodes
  | .nested body => body.nodes
  | .invalid node => [node]

def Block.nodes : Block → List Node
  | .mk statements node => node :: Stmt.nodesAll statements

def Stmt.nodesAll : List Stmt → List Node
  | [] => []
  | first :: rest => first.nodes ++ Stmt.nodesAll rest

end

def Parameter.nodes (parameter : Parameter) : List Node :=
  [parameter.node, parameter.type.node, parameter.name.node]

def Function.nodes (function : Function) : List Node :=
  function.node :: function.result.node :: function.name.node :: function.list ::
    (function.parameters.flatMap Parameter.nodes ++ function.body.nodes)

/-- All nodes of a program. -/
def Program.nodes (program : Program) : List Node :=
  program.node :: (program.functions.flatMap Function.nodes ++ program.main.nodes)

mutual

theorem Expr.map_id_nodes : ∀ expr : Expr, expr.nodes.map Node.id = expr.ids
  | .literal _ _ | .named _ | .invalid _ => rfl
  | .binary _ left right _ => by
    rw [Expr.nodes, Expr.ids, List.map_append, List.map_append, left.map_id_nodes, right.map_id_nodes]
    rfl
  | .unary _ operand _ => by
    rw [Expr.nodes, Expr.ids, List.map_append, operand.map_id_nodes]
    rfl
  | .call _ arguments _ _ => by
    rw [Expr.nodes, Expr.ids, List.map_cons, List.map_cons, List.map_append, Expr.map_id_nodesAll arguments]
    rfl

theorem Expr.map_id_nodesAll : ∀ arguments : List Expr, (Expr.nodesAll arguments).map Node.id = Expr.idsAll arguments
  | [] => rfl
  | first :: rest => by
    rw [Expr.nodesAll, Expr.idsAll, List.map_append, first.map_id_nodes, Expr.map_id_nodesAll rest]

end

theorem PrintItem.map_id_nodes (item : PrintItem) : item.nodes.map Node.id = item.ids := by
  cases item with
  | value expr => exact expr.map_id_nodes
  | space | newline => rfl

mutual

theorem Stmt.map_id_nodes : ∀ stmt : Stmt, stmt.nodes.map Node.id = stmt.ids
  | .declare _ _ value _ | .assign _ value _ => by
    rw [Stmt.nodes, Stmt.ids, List.map_cons, List.map_cons, value.map_id_nodes]
  | .branch condition thenBlock none _ => by
    rw [Stmt.nodes, Stmt.ids, List.map_cons, List.map_append, condition.map_id_nodes, thenBlock.map_id_nodes,
      List.append_nil]
  | .branch condition thenBlock (some elseBlock) _ => by
    rw [Stmt.nodes, Stmt.ids, List.map_cons, List.map_append, List.map_append, condition.map_id_nodes,
      thenBlock.map_id_nodes, elseBlock.map_id_nodes]
  | .ret none _ | .invalid _ => rfl
  | .ret (some value) _ => by rw [Stmt.nodes, Stmt.ids, List.map_cons, value.map_id_nodes]
  | .call call _ => by rw [Stmt.nodes, Stmt.ids, List.map_cons, call.expr.map_id_nodes, Call.ids]
  | .print items _ => by
    rw [Stmt.nodes, Stmt.ids, List.map_cons, List.map_flatMap]
    simp only [PrintItem.map_id_nodes]
  | .nested body => by rw [Stmt.nodes, Stmt.ids, body.map_id_nodes]

theorem Block.map_id_nodes : ∀ block : Block, block.nodes.map Node.id = block.ids
  | .mk statements _ => by rw [Block.nodes, Block.ids, List.map_cons, Stmt.map_id_nodesAll statements]

theorem Stmt.map_id_nodesAll : ∀ statements : List Stmt,
    (Stmt.nodesAll statements).map Node.id = Stmt.idsAll statements
  | [] => rfl
  | first :: rest => by
    rw [Stmt.nodesAll, Stmt.idsAll, List.map_append, first.map_id_nodes, Stmt.map_id_nodesAll rest]

end

theorem Function.map_id_nodes (function : Function) : function.nodes.map Node.id = function.ids := by
  simp only [Function.nodes, Function.ids, List.map_cons, List.map_append, List.map_flatMap, Block.map_id_nodes]
  rfl

/-- The nodes and their numbers go together, so no node is missing. -/
theorem Program.map_id_nodes (program : Program) : program.nodes.map Node.id = program.ids := by
  simp only [Program.nodes, Program.ids, List.map_cons, List.map_append, List.map_flatMap, Block.map_id_nodes,
    Function.map_id_nodes]

/-- One of the tokens is where the node begins. -/
def Node.StartsAmong (node : Node) (tokens : List Token) : Prop := ∃ token ∈ tokens, node.span.StartsAt token

namespace Anchored

open Grammar (Listed Divided Sequence IsDivider typeWord)

/-- The name of an identifier begins with it. -/
structure Named (token : Token) (name : Name) : Prop where
  kind : token.kind = .identifier
  text : name.text = token.lexeme
  node : name.node.span.StartsAt token

/-- An expression and its tokens. -/
inductive Expression : List Token → Expr → Prop
  | chain {operator : BinaryOperator} {mark : Token} {before after : List Token} {left right : Expr} {node : Node} :
    Expression before left → BinaryOperator.ofKind? mark.kind = some operator → Expression after right →
    node.span.StartsInside (before ++ mark :: after) →
    Expression (before ++ mark :: after) (.binary operator left right node)
  | negation {mark : Token} {tokens : List Token} {operand : Expr} {node : Node} :
    mark.kind = .mark .minus → Expression tokens operand → node.span.StartsAt mark →
    Expression (mark :: tokens) (.unary .negate operand node)
  | literal {token : Token} {value : Literal} {node : Node} :
    token.kind.isLiteral = true → Literal.ofToken token = .ok value → node.span.StartsAt token →
    Expression [token] (.literal value node)
  | named {token : Token} {name : Name} : Named token name → Expression [token] (.named name)
  | call {callee : Token} {name : Name} {tokens : List Token} {arguments : List Expr} {list node : Node} :
    Named callee name → Listed Expression tokens arguments → list.span.Starts tokens → node.span.StartsAt callee →
    Expression (callee :: tokens) (.call name arguments list node)
  | group {opening closing : Token} {tokens : List Token} {expr : Expr} :
    opening.kind = .mark .leftParen → Expression tokens expr → closing.kind = .mark .rightParen →
    Expression (opening :: tokens ++ [closing]) expr

/-- A call, whose argument list begins with its parenthesis. -/
structure Invocation (callee : Token) (tokens : List Token) (call : Call) : Prop where
  named : Named callee call.callee
  arguments : Listed Expression tokens call.arguments
  list : call.list.span.Starts tokens
  node : call.node.span.StartsAt callee

/-- Values, each but the last followed by at least one divider. What a divider prints is where the divider is. -/
inductive Printed : List Token → List PrintItem → Prop
  | none : Printed [] []
  | last {tokens : List Token} {value : Expr} : Expression tokens value → Printed tokens [.value value]
  | more {tokens dividers rest : List Token} {value : Expr} {items : List PrintItem} :
    Expression tokens value → dividers ≠ [] → (∀ token ∈ dividers, IsDivider token) → Printed rest items →
    Printed (tokens ++ (dividers ++ rest)) (.value value :: dividers.filterMap Parser.separatorItem? ++ items)

mutual

/-- A statement and its tokens. -/
inductive Statement : List Token → Stmt → Prop
  | declare {word identifier assign semicolon : Token} {isMutable : Bool} {tokens : List Token} {name : Name}
      {value : Expr} {node : Node} :
    word.kind = .keyword (if isMutable then .mutWord else .immWord) → Named identifier name →
    assign.kind = .mark .assign → Expression tokens value → semicolon.kind = .mark .semicolon →
    node.span.StartsAt word →
    Statement (word :: identifier :: assign :: tokens ++ [semicolon]) (.declare isMutable name value node)
  | assign {identifier assign semicolon : Token} {tokens : List Token} {name : Name} {value : Expr} {node : Node} :
    Named identifier name → assign.kind = .mark .assign → Expression tokens value →
    semicolon.kind = .mark .semicolon → node.span.StartsAt identifier →
    Statement (identifier :: assign :: tokens ++ [semicolon]) (.assign name value node)
  | print {word semicolon : Token} {dividers tokens : List Token} {items : List PrintItem} {node : Node} :
    word.kind = .keyword .printWord → (∀ token ∈ dividers, IsDivider token) → Printed tokens items →
    semicolon.kind = .mark .semicolon → node.span.StartsAt word →
    Statement (word :: (dividers ++ tokens) ++ [semicolon])
      (.print (dividers.filterMap Parser.separatorItem? ++ items) node)
  | call {word callee semicolon : Token} {tokens : List Token} {call : Call} {node : Node} :
    word.kind = .keyword .callWord → Invocation callee tokens call → semicolon.kind = .mark .semicolon →
    node.span.StartsAt word → Statement (word :: callee :: tokens ++ [semicolon]) (.call call node)
  | choose {word opening closing : Token} {tokens inner : List Token} {condition : Expr}
      {thenBlock : Stackwright.Block} {node : Node} :
    word.kind = .keyword .ifWord → opening.kind = .mark .leftParen → Expression tokens condition →
    closing.kind = .mark .rightParen → Block inner thenBlock → node.span.StartsAt word →
    Statement (word :: opening :: tokens ++ closing :: inner) (.branch condition thenBlock none node)
  | chooseElse {word opening closing otherwise : Token} {tokens inner other : List Token} {condition : Expr}
      {thenBlock elseBlock : Stackwright.Block} {node : Node} :
    word.kind = .keyword .ifWord → opening.kind = .mark .leftParen → Expression tokens condition →
    closing.kind = .mark .rightParen → Block inner thenBlock → otherwise.kind = .keyword .elseWord →
    Block other elseBlock → node.span.StartsAt word →
    Statement (word :: opening :: tokens ++ closing :: inner ++ otherwise :: other)
      (.branch condition thenBlock (some elseBlock) node)
  | ret {word semicolon : Token} {node : Node} :
    word.kind = .keyword .returnWord → semicolon.kind = .mark .semicolon → node.span.StartsAt word →
    Statement [word, semicolon] (.ret none node)
  | retValue {word semicolon : Token} {tokens : List Token} {value : Expr} {node : Node} :
    word.kind = .keyword .returnWord → Expression tokens value → semicolon.kind = .mark .semicolon →
    node.span.StartsAt word → Statement (word :: tokens ++ [semicolon]) (.ret (some value) node)
  | nested {tokens : List Token} {body : Stackwright.Block} : Block tokens body → Statement tokens (.nested body)

/-- A block and its tokens. -/
inductive Block : List Token → Stackwright.Block → Prop
  | braces {opening closing : Token} {tokens : List Token} {statements : List Stmt} {node : Node} :
    opening.kind = .mark .leftBrace → Sequence Statement tokens statements → closing.kind = .mark .rightBrace →
    node.span.StartsAt opening → Block (opening :: tokens ++ [closing]) (.mk statements node)

end

/-- A type that is written down begins with its keyword. -/
structure Typed (token : Token) (mark : TypeMark) : Prop where
  kind : token.kind = .keyword (typeWord mark.primitive)
  node : mark.node.span.StartsAt token

inductive Parameter : List Token → Stackwright.Parameter → Prop
  | mk {type identifier : Token} {mark : TypeMark} {name : Name} {node : Node} :
    Typed type mark → mark.primitive ≠ .void → Named identifier name → node.span.StartsAt type →
    Parameter [type, identifier] ⟨mark, name, node⟩

inductive Function : List Token → Stackwright.Function → Prop
  | mk {word type identifier : Token} {result : TypeMark} {name : Name} {list inner : List Token}
      {parameters : List Stackwright.Parameter} {listNode : Node} {body : Stackwright.Block} {node : Node} :
    word.kind = .keyword .funcWord → Typed type result → Named identifier name → Listed Parameter list parameters →
    listNode.span.Starts list → Block inner body → node.span.StartsAt word →
    Function (word :: type :: identifier :: list ++ inner) ⟨result, name, parameters, listNode, body, node⟩

/-- A program begins with its first function, or with `main` if it has none. -/
inductive Program : List Token → Stackwright.Program → Prop
  | mk {word : Token} {tokens inner : List Token} {functions : List Stackwright.Function}
      {main : Stackwright.Block} {node : Node} {nodeCount : Nat} :
    Sequence Function tokens functions → word.kind = .keyword .mainWord → Block inner main →
    node.span.Starts (tokens ++ word :: inner) →
    Program (tokens ++ word :: inner) ⟨functions, main, node, nodeCount⟩

end Anchored

theorem Node.StartsAmong.mono {node : Node} {tokens more : List Token} (among : node.StartsAmong tokens)
    (wider : tokens ⊆ more) : node.StartsAmong more := by
  obtain ⟨token, member, starts⟩ := among
  exact ⟨token, wider member, starts⟩

theorem Node.startsAmong_of_startsFirst {node : Node} {passes : Token → Bool} {tokens : List Token}
    (starts : node.span.StartsFirst passes tokens) : node.StartsAmong tokens := by
  obtain ⟨token, found, starts⟩ := starts
  exact ⟨token, List.mem_of_find?_eq_some found, starts⟩

/-- Each of the nodes begins where one of the tokens does. -/
def Node.AllAmong (nodes : List Node) (tokens : List Token) : Prop := ∀ node ∈ nodes, node.StartsAmong tokens

namespace Node.AllAmong

variable {node : Node} {nodes others : List Node} {token : Token} {tokens more : List Token}

theorem mono (among : AllAmong nodes tokens) (wider : tokens ⊆ more) : AllAmong nodes more :=
  fun node member => (among node member).mono wider

theorem nil (tokens : List Token) : AllAmong [] tokens := List.forall_mem_nil _

theorem cons (first : node.StartsAmong tokens) (rest : AllAmong nodes tokens) : AllAmong (node :: nodes) tokens :=
  List.forall_mem_cons.mpr ⟨first, rest⟩

theorem append (one : AllAmong nodes tokens) (two : AllAmong others tokens) : AllAmong (nodes ++ others) tokens :=
  List.forall_mem_append.mpr ⟨one, two⟩

end Node.AllAmong

namespace Anchored

open Node Grammar

mutual

/-- Every node of an anchored expression begins where one of its tokens does. -/
theorem Expression.allAmong {tokens : List Token} {expr : Expr} : Expression tokens expr → AllAmong expr.nodes tokens
  | .chain left _ right starts =>
    (left.allAmong.mono (by grind)).append
      ((right.allAmong.mono (by grind)).append (.cons (startsAmong_of_startsFirst starts) (.nil _)))
  | .negation _ operand starts => (operand.allAmong.mono (by grind)).append (.cons ⟨_, by grind, starts⟩ (.nil _))
  | .literal _ _ starts => .cons ⟨_, by grind, starts⟩ (.nil _)
  | .named named => .cons ⟨_, by grind, named.node⟩ (.nil _)
  | .call named arguments list starts =>
    .cons ⟨_, by grind, named.node⟩ (.cons ((startsAmong_of_startsFirst list).mono (by grind))
      (((allAmong_listed arguments).mono (by grind)).append (.cons ⟨_, by grind, starts⟩ (.nil _))))
  | .group _ inner _ => inner.allAmong.mono (by grind)

theorem allAmong_listed {tokens : List Token} {arguments : List Expr} :
    Listed Expression tokens arguments → AllAmong (Expr.nodesAll arguments) tokens
  | .none _ _ => .nil _
  | .some _ divided _ => (allAmong_divided divided).mono (by grind)

theorem allAmong_divided {tokens : List Token} {arguments : List Expr} :
    Divided Expression tokens arguments → AllAmong (Expr.nodesAll arguments) tokens
  | .last value => value.allAmong.append (.nil _)
  | .more value _ rest => (value.allAmong.mono (by grind)).append ((allAmong_divided rest).mono (by grind))

end

/-- Every anchored expression begins with the first of its tokens that is no opening parenthesis. -/
theorem Expression.startsInside {tokens : List Token} {expr : Expr} :
    Expression tokens expr → expr.span.StartsInside tokens
  | .chain _ _ _ starts => starts
  | .negation isMinus _ starts => (Span.startsFirst_cons _ (by simp [isMinus])).mpr starts
  | @Expression.literal token _ _ isLiteral _ starts => by
    have notParen : token.kind ≠ .mark .leftParen := by
      intro isParen
      rw [isParen] at isLiteral
      cases isLiteral
    exact (Span.startsFirst_cons _ (decide_eq_true notParen)).mpr starts
  | .named isName => (Span.startsFirst_cons _ (by simp [isName.kind])).mpr isName.node
  | .call isName _ _ starts => (Span.startsFirst_cons _ (by simp [isName.kind])).mpr starts
  | .group isOpening inner _ =>
    (inner.startsInside.append _).cons_of_not (by simp [isOpening])

theorem Invocation.expression {callee : Token} {tokens : List Token} {call : Call}
    (invocation : Invocation callee tokens call) : Expression (callee :: tokens) call.expr :=
  .call invocation.named invocation.arguments invocation.list invocation.node

/-- What dividers print has no nodes. -/
theorem allAmong_separatorItems (dividers tokens : List Token) :
    AllAmong ((dividers.filterMap Parser.separatorItem?).flatMap PrintItem.nodes) tokens := by
  intro node member
  obtain ⟨item, among, inside⟩ := List.mem_flatMap.mp member
  obtain ⟨token, _, prints⟩ := List.mem_filterMap.mp among
  unfold Parser.separatorItem? at prints
  split at prints <;> cases prints <;> cases inside

theorem Printed.allAmong {tokens : List Token} {items : List PrintItem} (printed : Printed tokens items) :
    AllAmong (items.flatMap PrintItem.nodes) tokens := by
  induction printed with
  | none => exact .nil _
  | last value => exact value.allAmong.append (.nil _)
  | @more tokens dividers rest value items first _ _ _ ih =>
    rw [List.cons_append, List.flatMap_cons, List.flatMap_append]
    exact (first.allAmong.mono (by grind)).append ((allAmong_separatorItems _ _).append (ih.mono (by grind)))

mutual

theorem Statement.allAmong {tokens : List Token} {stmt : Stmt} : Statement tokens stmt → AllAmong stmt.nodes tokens
  | .declare _ named _ value _ starts =>
    .cons ⟨_, by grind, starts⟩ (.cons ⟨_, by grind, named.node⟩ (value.allAmong.mono (by grind)))
  | .assign named _ value _ starts =>
    .cons ⟨_, by grind, starts⟩ (.cons ⟨_, by grind, named.node⟩ (value.allAmong.mono (by grind)))
  | .print _ _ printed _ starts => by
    rw [Stmt.nodes, List.flatMap_append]
    exact .cons ⟨_, by grind, starts⟩ ((allAmong_separatorItems _ _).append (printed.allAmong.mono (by grind)))
  | .call _ invocation _ starts => .cons ⟨_, by grind, starts⟩ (invocation.expression.allAmong.mono (by grind))
  | .choose _ _ condition _ thenBlock starts =>
    .cons ⟨_, by grind, starts⟩
      ((condition.allAmong.mono (by grind)).append (thenBlock.allAmong.mono (by grind)))
  | .chooseElse _ _ condition _ thenBlock _ elseBlock starts =>
    .cons ⟨_, by grind, starts⟩ ((condition.allAmong.mono (by grind)).append
      ((thenBlock.allAmong.mono (by grind)).append (elseBlock.allAmong.mono (by grind))))
  | .ret _ _ starts => .cons ⟨_, by grind, starts⟩ (.nil _)
  | .retValue _ value _ starts => .cons ⟨_, by grind, starts⟩ (value.allAmong.mono (by grind))
  | .nested body => body.allAmong

theorem Block.allAmong {tokens : List Token} {block : Stackwright.Block} :
    Block tokens block → AllAmong block.nodes tokens
  | .braces _ statements _ starts => .cons ⟨_, by grind, starts⟩ ((allAmong_statements statements).mono (by grind))

theorem allAmong_statements {tokens : List Token} {statements : List Stmt} :
    Sequence Statement tokens statements → AllAmong (Stmt.nodesAll statements) tokens
  | .nil => .nil _
  | .cons first rest => (first.allAmong.mono (by grind)).append ((allAmong_statements rest).mono (by grind))

end

theorem Block.startsAmong {tokens : List Token} {block : Stackwright.Block} (anchored : Block tokens block) :
    block.node.StartsAmong tokens := by
  cases anchored with
  | braces _ _ _ starts => exact ⟨_, by grind, starts⟩

theorem Parameter.allAmong {tokens : List Token} {parameter : Stackwright.Parameter}
    (anchored : Parameter tokens parameter) : AllAmong parameter.nodes tokens := by
  cases anchored with
  | mk typed _ named starts =>
    exact .cons ⟨_, by grind, starts⟩ (.cons ⟨_, by grind, typed.node⟩ (.cons ⟨_, by grind, named.node⟩ (.nil _)))

theorem allAmong_parameters {tokens : List Token} {parameters : List Stackwright.Parameter}
    (divided : Divided Parameter tokens parameters) : AllAmong (parameters.flatMap Parameter.nodes) tokens := by
  induction divided with
  | last first => exact first.allAmong.append (.nil _)
  | more first _ _ ih =>
    rw [List.flatMap_cons]
    exact (first.allAmong.mono (by grind)).append (ih.mono (by grind))

theorem Function.allAmong {tokens : List Token} {function : Stackwright.Function}
    (anchored : Function tokens function) : AllAmong function.nodes tokens := by
  cases anchored with
  | @mk word type identifier result name list inner parameters listNode body node
      _ typed named listed starts block starts' =>
    have parts : AllAmong (parameters.flatMap Parameter.nodes) list := by
      cases listed with
      | none => exact .nil _
      | some _ divided _ => exact (allAmong_parameters divided).mono (by grind)
    exact .cons ⟨_, by grind, starts'⟩ (.cons ⟨_, by grind, typed.node⟩ (.cons ⟨_, by grind, named.node⟩
      (.cons ((startsAmong_of_startsFirst starts).mono (by grind))
        ((parts.mono (by grind)).append (block.allAmong.mono (by grind))))))

theorem allAmong_functions {tokens : List Token} {functions : List Stackwright.Function}
    (sequence : Sequence Function tokens functions) : AllAmong (functions.flatMap Function.nodes) tokens := by
  induction sequence with
  | nil => exact .nil _
  | cons first _ ih =>
    rw [List.flatMap_cons]
    exact (first.allAmong.mono (by grind)).append (ih.mono (by grind))

/-- Every node of an anchored program begins where one of its tokens does. -/
theorem Program.allAmong {tokens : List Token} {program : Stackwright.Program}
    (anchored : Program tokens program) : AllAmong program.nodes tokens := by
  cases anchored with
  | mk functions _ main starts =>
    exact .cons (startsAmong_of_startsFirst starts)
      (((allAmong_functions functions).mono (by grind)).append (main.allAmong.mono (by grind)))

end Anchored

end Stackwright
