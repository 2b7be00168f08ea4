import SpecCoverage.Program.Statement

/-!
# Modules

The items of a module: imports, exports, and everything that may stand in a list of statements.
-/

namespace SpecCoverage.Program

/-! ## Specifiers -/

/-- A name in the braces of an import or an export: a word or a string. -/
inductive Specified where
  | word (text : String) (escaped : Bool)
  | string

def Specified.isWord (text : String) : Specified → Bool
  | .word found escaped => found == text && !escaped
  | .string => false

def specifiedName? : Parse (Option Specified) := do
  match ← kind with
  | .name text escaped =>
    advance
    return some (.word text escaped)
  | .string .. =>
    advance
    return some .string
  | _ => return none

def specifiedName : Parse Specified := do
  match ← specifiedName? with
  | some name => return name
  | none => refuse

/-- `name` or `name as name`, and in a typed program both behind `type`: the name in the other module
or here, and the new name. -/
def specifier (cx : Context) : Parse (Specified × Specified) := do
  let first ← specifiedName
  if cx.typescript && first.isWord "type" then
    match ← repeated specifiedName? with
    | [] => return (first, first)
    | [name] => return (name, name)
    | [between, renamed] =>
      refuseIf (!between.isWord "as")
      return (first, renamed)
    | [name, between, renamed] =>
      refuseIf (!between.isWord "as")
      return (name, renamed)
    | _ => refuse
  else if ← eatWord "as" then return (first, ← specifiedName)
  else return (first, first)

def specifiers (cx : Context) : Parse (List (Specified × Specified)) := do
  expectSymbol "\x7b"
  return (← listedUntil "\x7d" (specifier cx)).1

def moduleSource : Parse Unit := do
  refuseIf (!(← current).isString)
  advance

/-- `with` and the attributes of an import. -/
def importAttributes : Parse Unit := do
  if (← atWord "with") || ((← atWord "assert") && !(← onNewLine)) then
    advance
    expectSymbol "\x7b"
    let _ ← listedUntil "\x7d" do
      if (← current).isString then advance else
        let _ ← anyName
      expectSymbol ":"
      moduleSource
    return ()

def sourceClause : Parse Unit := do
  expectWord "from"
  moduleSource
  importAttributes
  expectSemicolon

/-! ## Imports -/

/-- The names of an import have to be names of variables. -/
def refuseImported (cx : Context) (found : List (Specified × Specified)) : Parse Unit :=
  refuseIf (found.any fun (_, here) =>
    match here with
    | .word name _ => !isVariableName cx name || name == "eval" || name == "arguments"
    | .string => true)

def importedNames (cx : Context) : Parse Unit := do
  if ← eatSymbol "*" then
    expectWord "as"
    let _ ← boundName cx
  else
    refuseImported cx (← specifiers cx)

/-- `= require("name");` or `= A.B;` behind the name of an import. -/
def importEquals : Parse Unit := do
  expectSymbol "="
  if (← atWord "require") && (← peekSymbol "(") then
    advance
    expectSymbol "("
    moduleSource
    expectSymbol ")"
  else qualifiedName
  expectSemicolon

/-- Whether `type` belongs to the import and is not the name that it brings. -/
def importsTypes (next : Token) (second : Option Token) : Bool :=
  match next.kind with
  | .symbol text => text == "\x7b" || text == "*"
  | .name name _ =>
    if name == "from" then second.any fun t => t.kind == .name "from" false || t.kind == .symbol "="
    else true
  | _ => false

def peekSecond : Parse (Option Token) := do
  return ((← glance do advance; peek).getD none)

def importDeclaration (cx : Context) : Parse Tree := do
  let start ← here
  expectWord "import"
  if (← current).isString then
    moduleSource
    importAttributes
    expectSemicolon
  else
    if cx.typescript && (← atWord "type") then
      let second ← peekSecond
      if ← peekIs fun next => importsTypes next second then advance
    if ← atAnySymbol ["*", "\x7b"] then
      importedNames cx
      sourceClause
    else
      let _ ← boundName cx
      if cx.typescript && (← atSymbol "=") then importEquals
      else
        if ← eatSymbol "," then importedNames cx
        sourceClause
  finish start .statement []

/-! ## Exports -/

/-- What is exported by name has to be the name of a variable, unless another module has it. -/
def refuseExported (found : List (Specified × Specified)) : Parse Unit :=
  refuseIf (found.any fun (name, _) =>
    match name with
    | .word name _ => reservedWords.contains name
    | .string => true)

def exportedNames (cx : Context) : Parse Unit := do
  if ← eatSymbol "*" then
    if ← eatWord "as" then
      if (← current).isString then advance else
        let _ ← anyName
    sourceClause
  else
    let found ← specifiers cx
    if ← atWord "from" then sourceClause
    else
      refuseExported found
      expectSemicolon

def isFunctionWord (t : Token) : Bool := t.kind == .name "function" false && !t.onNewLine

def defaultExport (g : Grammar) (cx : Context) (decorated : List Tree) : Parse Tree := do
  let start ← here
  let decorators ← decorators g cx
  let decorators := decorated ++ decorators
  if cx.typescript && (← atWord "abstract")
      && (← peekIs fun t => t.kind == .name "class" false && !t.onNewLine) then
    advance
    classRest g cx start decorators true
  else if ← atWord "class" then classRest g cx start decorators true
  else
    refuseIf (!decorators.isEmpty)
    if ← atWord "function" then functionFromKeyword g cx start false false true
    else if (← atWord "async") && (← peekIs isFunctionWord) then
      advance
      functionFromKeyword g cx start true false true
    else if cx.typescript && (← atWord "interface") && (← peekIs fun t => t.isName && !t.onNewLine) then
      match ← declaration? g { cx with mustDeclare := false } with
      | some tree => return tree
      | none => refuse
    else
      refuseIf (← atAnyWord ["const", "var", "let", "enum"])
      let value ← g.assignment cx
      expectSemicolon
      finish start .statement [value]

/-- An export that only a typed program has, if one stands behind `export`. -/
def typedExport? (g : Grammar) (cx : Context) : Parse (Option (List Tree)) := do
  if ← eatSymbol "=" then
    let value ← g.expression cx
    expectSemicolon
    return some [value]
  else if (← atWord "as") && (← peekIs fun t => t.kind == .name "namespace" false) then
    advance
    advance
    let _ ← anyName
    expectSemicolon
    return some []
  else if ← atWord "import" then
    advance
    if (← atWord "type") && (← peekIs Token.isName) then advance
    let _ ← boundName cx
    importEquals
    return some []
  else if (← atWord "type") && (← peekIs fun t => t.kind == .symbol "\x7b" || t.kind == .symbol "*") then
    advance
    exportedNames cx
    return some []
  else return none

def exportDeclaration (g : Grammar) (cx : Context) (decorated : List Tree) : Parse Tree := do
  let start ← here
  expectWord "export"
  let cx := { cx with mustDeclare := false }
  let typed ← if cx.typescript then typedExport? g cx else pure none
  match typed with
  | some parts =>
    refuseIf (!decorated.isEmpty)
    finish start .statement parts
  | none =>
    if ← eatWord "default" then
      finish start .exported [← defaultExport g cx decorated]
    else if ← atAnySymbol ["*", "\x7b"] then
      refuseIf (!decorated.isEmpty)
      exportedNames cx
      finish start .statement []
    else
      match ← declaration? g cx with
      | some tree =>
        refuseAtIf start (!decorated.isEmpty && tree.kind ≠ .classLike)
        finish start .exported (decorated ++ [tree])
      | none => refuse

/-! ## Items -/

def atImport : Parse Bool := do
  return (← atWord "import")
    && !(← peekIs fun t => t.kind == .symbol "(" || t.kind == .symbol ".")

/-- Decorators before an export. -/
def decoratedExport? (g : Grammar) (cx : Context) : Parse (Option (List Tree)) :=
  attempt do
    let found ← decorators g cx
    refuseIf (found.isEmpty || !(← atWord "export"))
    return found

/-- An item of a module or of a namespace. -/
def moduleItem (g : Grammar) (cx : Context) : Parse Tree := do
  let modular := cx.isModule || cx.inNamespace
  if modular && (← atImport) then importDeclaration cx
  else if modular && (← atWord "export") then exportDeclaration g cx []
  else
    let decorated ← if modular && cx.typescript then decoratedExport? g cx else pure none
    match decorated with
    | some found => exportDeclaration g cx found
    | none => g.listed cx

end SpecCoverage.Program
