import Toolwhip.Lib.OpenRecursion
import Toolwhip.Lib.WordTemplates

/-! # The values of a macro

`InsertMacroDefInTable` of parse_file.py and `EvalExpression` of macro_eval.py: an expression has many
values, since each definition may be in effect, or none. A set is a list here, and `None` is `none`.
The limit on the depth of the recursion is the interpreter's. -/

namespace Toolwhip.Distcc.MacroEval
open Lib.CNumber Lib.WordTemplates Lib.OpenRecursion
set_option autoImplicit false

local instance text_lawful : LawfulBEq Text := List.instLawfulBEq

inductive Raised where
  | AssertionError
  | AttributeError
  | NotCoveredError
  | TypeError
  | error
  | RuntimeError
  deriving DecidableEq, Repr

/-- An object-like macro, or the parameters and the right side of a function-like one. -/
inductive Definition where
  | object (rhs : Option Text)
  | function (params : List Text) (rhs : Option Text)
  deriving DecidableEq, Repr

abbrev SymbolTable := List (Text × List Definition)

def SymbolTable.definitions : SymbolTable → Text → Option (List Definition)
  | [], _ => none
  | (symbol, defs) :: more, s => if symbol = s then some defs else SymbolTable.definitions more s

/-- `symbol_table[lhs] = [df]` or `symbol_table[lhs].append(df)` -/
def SymbolTable.add (lhs : Text) (df : Definition) : SymbolTable → SymbolTable
  | [] => [(lhs, [df])]
  | (symbol, defs) :: more =>
    if symbol = lhs then (symbol, defs ++ [df]) :: more else (symbol, defs) :: SymbolTable.add lhs df more

structure MacroExpr where
  symbol : Text
  args : Option Text
  rest : Text

def notParens (b : UInt8) : Bool := b != 40 && b != 41

def MACRO_EXPR_match (lhs : Text) : Option MacroExpr :=
  let symbol := lhs.takeWhile isWord
  let rest := lhs.drop symbol.length
  if symbol = [] then none
  else
    match rest.dropWhile isspace with
    | 40 :: inner =>
      let args := (inner.dropWhile isspace).takeWhile notParens
      match (inner.dropWhile isspace).drop args.length with
      | 41 :: rest' => some ⟨symbol, some args, rest'⟩
      | _ => some ⟨symbol, none, rest⟩
    | _ => some ⟨symbol, none, rest⟩

def InsertMacroDefInTable (lhs : Text) (rhs : Option Text) (symbol_table : SymbolTable) :
    Except Raised SymbolTable :=
  match MACRO_EXPR_match lhs with
  | none => .error .AttributeError
  | some m_expr =>
    if m_expr.rest ≠ [] then .error .NotCoveredError
    else
      match m_expr.args with
      | some args => .ok (symbol_table.add m_expr.symbol (.function (args.splitOn 44) rhs))
      | none =>
        if m_expr.symbol ≠ lhs then .error .AssertionError
        else .ok (symbol_table.add lhs (.object rhs))

def ParseFine_rhs (rhs : Text) : Option Text := if rhs = [] then none else some rhs

inductive Produced : SymbolTable → Prop
  | empty : Produced []
  | insert {symbol_table symbol_table' : SymbolTable} {lhs : Text} {rhs : Option Text}
      (h : Produced symbol_table)
      (hinsert : InsertMacroDefInTable lhs rhs symbol_table = .ok symbol_table') :
      Produced symbol_table'

abbrev Values := List Text

def BigUnion (list_of_sets : List Values) : Values := list_of_sets.flatten

def PrependToSet (expr : Text) (expr_set : Values) : Values := expr_set.map (expr ++ ·)

def SubstituteSymbolInString (x y : Text) (str : Option Text) : Except Raised Text :=
  match str with
  | none => if (template y).isNone then .error .error else .error .TypeError
  | some str =>
    match sub x y str with
    | none => .error .error
    | some result => .ok result

/-- The loop of `_ParseArgs`: the places of the commas, and of the last parenthesis. A quote always
ends what is quoted, since `string[i-1] != r'\\'` compares one character with two. -/
def parseArgsLoop : Nat → Nat → Bool → List Nat → Text → Option (List Nat × Nat)
  | _, _, _, _, [] => none
  | i, open_parens, true, commas, c :: rest => parseArgsLoop (i + 1) open_parens (c != 34) commas rest
  | i, open_parens, false, commas, c :: rest =>
    if c = 44 ∧ open_parens = 1 then parseArgsLoop (i + 1) open_parens false (commas ++ [i]) rest
    else if c = 40 then parseArgsLoop (i + 1) (open_parens + 1) false commas rest
    else if c = 41 then
      if open_parens - 1 = 0 then some (commas, i)
      else parseArgsLoop (i + 1) (open_parens - 1) false commas rest
    else parseArgsLoop (i + 1) open_parens (c == 34) commas rest

/-- `args_list` and `args_end` -/
def ParseArgs (string : Text) (pos : Nat) : Option (List Text) × Nat :=
  if (string.drop pos).head? ≠ some 40 then (none, pos)
  else
    match parseArgsLoop pos 0 false [pos] (string.drop pos) with
    | none => (none, pos)
    | some (commas, pos_end) =>
      (some ((commas.zip (commas.tail ++ [pos_end])).map fun place =>
        (string.drop (place.1 + 1)).take (place.2 - (place.1 + 1))), pos_end + 1)

/-- `DOUBLE_POUND_RE.sub("", string)` -/
def withoutDoublePounds : Text → Text
  | 35 :: 35 :: rest => withoutDoublePounds rest
  | c :: rest => c :: withoutDoublePounds rest
  | [] => []

/-- `SINGLE_POUND_RE.sub(r'"\1"', string)`; of the match that is being passed over `skip` characters are
left. -/
def stringified : Option UInt8 → Nat → Text → Text
  | _, _, [] => []
  | _, skip + 1, c :: rest => stringified (some c) skip rest
  | before, 0, c :: rest =>
    if c = 35 && !before.any isWord then
      let blanks := rest.takeWhile isspace
      let arg := (rest.drop blanks.length).takeWhile fun b => !isspace b
      34 :: arg ++ 34 :: stringified (some c) (blanks.length + arg.length) rest
    else c :: stringified (some c) 0 rest

def MassageAccordingToPoundSigns (string : Option Text) : Except Raised Text :=
  match string with
  | none => .error .TypeError
  | some string => .ok (stringified none 0 (withoutDoublePounds string))

/-! ## Evaluation -/

structure Match where
  start : Nat
  stop : Nat
  group : Text
  deriving DecidableEq, Repr

def SYMBOL_RE_search (expr : Text) : Option Match :=
  let start := (expr.takeWhile fun b => !isWord b).length
  let group := (expr.drop start).takeWhile isWord
  if group = [] then none else some ⟨start, start + group.length, group⟩

structure Call where
  expr : Text
  disabled : List Text

/-- For each argument in turn, every expansion with every value of the argument. -/
def substitutions : List (Text × Values) → List (Option Text) → Except Raised (List (Option Text))
  | [], expansions => .ok expansions
  | (x, args) :: more, expansions => do
    let lists ← expansions.mapM fun expansion => args.mapM fun arg =>
      SubstituteSymbolInString x arg expansion
    substitutions more (lists.flatten.map some)

section Evaluation
variable (symbol_table : SymbolTable) (eval : Call → Except Raised Values) (call : Call)

def ReEvalRecursivelyForExpansion (m : Match) (after expansion : Text) : Except Raised Values := do
  let after_expansions ← eval ⟨after, call.disabled⟩
  let sets ← after_expansions.mapM fun after_expansion =>
    eval ⟨expansion ++ after_expansion, m.group :: call.disabled⟩
  .ok (PrependToSet (call.expr.take m.start) (BigUnion sets))

/-- What a definition adds to the symbol that goes unevaluated. -/
def evalDefinition (m : Match) (definition : Definition) : Except Raised Values :=
  match definition with
  | .object none => .error .AssertionError
  | .object (some rhs) => ReEvalRecursivelyForExpansion eval call m (call.expr.drop m.stop) rhs
  | .function lhs rhs =>
    match ParseArgs call.expr m.stop with
    | (none, _) => .ok []
    | (some args_list, args_end) =>
      if args_list = [] ∨ lhs.length ≠ args_list.length then .ok []
      else do
        let args_expand ← args_list.mapM fun arg => eval ⟨arg, call.disabled⟩
        let expansions ← substitutions (lhs.zip args_expand) [rhs]
        let sets ← expansions.mapM fun expansion => do
          let real_expansion ← MassageAccordingToPoundSigns expansion
          ReEvalRecursivelyForExpansion eval call m (call.expr.drop args_end) real_expansion
        .ok (BigUnion sets)

def EvalMacro (m : Match) (definition : Definition) : Except Raised Values := do
  let unevaluated ← eval ⟨call.expr.drop m.stop, call.disabled⟩
  let expanded ← evalDefinition eval call m definition
  .ok (PrependToSet (call.expr.take m.stop) unevaluated ++ expanded)

/-- One call of `_EvalExprHelper`. -/
def evalCall : Except Raised Values :=
  match SYMBOL_RE_search call.expr with
  | none => .ok [call.expr]
  | some m =>
    match symbol_table.definitions m.group with
    | none => do
      let rest ← eval ⟨call.expr.drop m.stop, call.disabled⟩
      .ok (PrependToSet (call.expr.take m.stop) rest)
    | some defs =>
      if m.group ∈ call.disabled then .ok [call.expr]
      else do
        let sets ← defs.mapM (EvalMacro eval call m)
        .ok (call.expr :: BigUnion sets)

end Evaluation

def EvalExprHelper (symbol_table : SymbolTable) (depth : Nat) (call : Call) : Except Raised Values :=
  limited (evalCall symbol_table) (.error .RuntimeError) depth call

def EvalExpression (depth : Nat) (expr : Text) (symbol_table : SymbolTable) : Except Raised Values :=
  EvalExprHelper symbol_table depth ⟨expr, []⟩

end Toolwhip.Distcc.MacroEval
