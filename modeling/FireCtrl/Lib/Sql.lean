import Mathlib.Data.List.Sort

/-!
# A fragment of SQL

Queries and updates of one table, read from their text as PostgreSQL reads them.

* `lex`: the tokens of a text; `parse`: the statement that a text spells. A text that spells none is
  `malformed` at a token.
* `Expr.cells`, `Expr.truth`: the value of an expression at a record, in three-valued logic;
  `Select.rows`: the rows of a query; `Update.image`: what an update makes of a record.
* **`Select.rows_eq`**: a query whose clauses can be computed on every record of its table answers
  with a sorted selection of them; `Update.run_eq`: the same for an update.
-/

namespace Sql

/-! ## Tokens -/

inductive Keyword
  | SELECT | FROM | WHERE | AND | OR | NOT | IN | IS | NULL | AS | ORDER | BY | ASC | DESC | LIMIT
  | TRUE | FALSE | FOR | SKIP | LOCKED | UPDATE | SET | RETURNING
deriving DecidableEq

/-- The words that no name may be. -/
def keywords : List (List Char × Keyword) :=
  [(['s', 'e', 'l', 'e', 'c', 't'], .SELECT), (['f', 'r', 'o', 'm'], .FROM),
   (['w', 'h', 'e', 'r', 'e'], .WHERE), (['a', 'n', 'd'], .AND), (['o', 'r'], .OR),
   (['n', 'o', 't'], .NOT), (['i', 'n'], .IN), (['i', 's'], .IS), (['n', 'u', 'l', 'l'], .NULL),
   (['a', 's'], .AS), (['o', 'r', 'd', 'e', 'r'], .ORDER), (['b', 'y'], .BY),
   (['a', 's', 'c'], .ASC), (['d', 'e', 's', 'c'], .DESC), (['l', 'i', 'm', 'i', 't'], .LIMIT),
   (['t', 'r', 'u', 'e'], .TRUE), (['f', 'a', 'l', 's', 'e'], .FALSE),
   (['u', 'p', 'd', 'a', 't', 'e'], .UPDATE), (['s', 'e', 't'], .SET),
   (['f', 'o', 'r'], .FOR), (['s', 'k', 'i', 'p'], .SKIP),
   (['l', 'o', 'c', 'k', 'e', 'd'], .LOCKED),
   (['r', 'e', 't', 'u', 'r', 'n', 'i', 'n', 'g'], .RETURNING)]

inductive Symbol
  | comma | dot | lparen | rparen | eq | ne | lt | le | gt | ge | cast
deriving DecidableEq

inductive Token
  | keyword (k : Keyword)
  | ident (s : String)
  | param (n : ℕ)
  | num (n : ℕ)
  | str (s : String)
  | symbol (s : Symbol)
deriving DecidableEq

inductive Error
  | malformed (near : Option Token)
  | exhausted
deriving DecidableEq

def isSpace (c : Char) : Bool := c = ' ' || c = '\n' || c = '\t' || c = '\r'

def isIdentStart (c : Char) : Bool := c.isAlpha || c = '_' || 128 ≤ c.toNat

def isIdentPart (c : Char) : Bool := isIdentStart c || c.isDigit || c = '$'

/-- Words are read without regard to case. -/
def word (cs : List Char) : Token :=
  let w := cs.map Char.toLower
  match keywords.find? fun k => k.1 = w with
  | some k => .keyword k.2
  | none => .ident (String.ofList w)

def decimal (cs : List Char) : ℕ := cs.foldl (fun n c => 10 * n + (c.toNat - '0'.toNat)) 0

/-- The rest of a quoted literal; two quotes stand for one. -/
def quoted : List Char → Option (List Char × List Char)
  | '\'' :: '\'' :: cs => (quoted cs).map fun p => ('\'' :: p.1, p.2)
  | '\'' :: cs => some ([], cs)
  | c :: cs => (quoted cs).map fun p => (c :: p.1, p.2)
  | [] => none

def symbol : List Char → Option (Symbol × List Char)
  | ':' :: ':' :: cs => some (.cast, cs)
  | '<' :: '=' :: cs => some (.le, cs)
  | '<' :: '>' :: cs => some (.ne, cs)
  | '>' :: '=' :: cs => some (.ge, cs)
  | '!' :: '=' :: cs => some (.ne, cs)
  | ',' :: cs => some (.comma, cs)
  | '.' :: cs => some (.dot, cs)
  | '(' :: cs => some (.lparen, cs)
  | ')' :: cs => some (.rparen, cs)
  | '=' :: cs => some (.eq, cs)
  | '<' :: cs => some (.lt, cs)
  | '>' :: cs => some (.gt, cs)
  | _ => none

/-- The first token of a text that starts with `c`, and what follows it. -/
def lexOne (c : Char) (cs : List Char) : Option (Token × List Char) :=
  if isIdentStart c then some (word (c :: cs.takeWhile isIdentPart), cs.dropWhile isIdentPart)
  else if c.isDigit then
    some (.num (decimal (c :: cs.takeWhile Char.isDigit)), cs.dropWhile Char.isDigit)
  else if c = '$' then
    -- a letter right after the digits starts a new token; servers from version 15 on refuse it here
    if cs.takeWhile Char.isDigit = [] then none
    else some (.param (decimal (cs.takeWhile Char.isDigit)), cs.dropWhile Char.isDigit)
  else if c = '\'' then (quoted cs).map fun p => (.str (String.ofList p.1), p.2)
  else (symbol (c :: cs)).map fun p => (.symbol p.1, p.2)

/-- Every token takes a character, so the length of the text is enough fuel. -/
def lexFrom : ℕ → List Char → Except Error (List Token)
  | _, [] => .ok []
  | 0, _ :: _ => .error .exhausted
  | n + 1, c :: cs =>
    if isSpace c then lexFrom n cs
    else match lexOne c cs with
      | some (t, rest) => (lexFrom n rest).map (t :: ·)
      | none => .error (.malformed none)

def lex (cs : List Char) : Except Error (List Token) := lexFrom cs.length cs

/-! ## Syntax -/

inductive CmpOp
  | eq | ne | lt | le | gt | ge
deriving DecidableEq

mutual

inductive Expr
  | null
  | bool (b : Bool)
  | num (n : ℕ)
  | str (s : String)
  | param (n : ℕ)
  | col (c : String)
  | call (f : String) (args : Exprs)
  | cast (e : Expr) (type : List String)
  | row (es : Exprs)
  | query (q : Select)
  | cmp (o : CmpOp) (a b : Expr)
  | isIn (a : Expr) (es : Exprs)
  | isNull (a : Expr)
  | not (a : Expr)
  | and (a b : Expr)
  | or (a b : Expr)
deriving DecidableEq

inductive Exprs
  | nil
  | cons (e : Expr) (es : Exprs)
deriving DecidableEq

/-- `SELECT items AS names FROM table WHERE cond ORDER BY keys LIMIT limit`, with `desc` saying
which keys descend. An absent condition is `TRUE`, an absent limit `NULL`. -/
inductive Select
  | mk (names : List String) (items : Exprs) (table : List String) (cond : Expr) (desc : List Bool)
      (keys : Exprs) (limit : Expr)
deriving DecidableEq

end

/-- `UPDATE table SET cols = exprs WHERE cond RETURNING items AS names`. -/
structure Update where
  table : List String
  cols : List String
  exprs : Exprs
  cond : Expr
  names : List String
  items : Exprs
deriving DecidableEq

inductive Statement
  | select (q : Select)
  | update (u : Update)
deriving DecidableEq

/-- The names of the columns that a statement answers with. -/
def Statement.names : Statement → List String
  | select (.mk names ..) => names
  | update u => u.names

def Exprs.of : List Expr → Exprs
  | [] => .nil
  | e :: es => .cons e (of es)

/-- The names of the output columns. -/
def Select.names : Select → List String
  | .mk names .. => names

/-- The name of an unnamed output column. -/
def Expr.outputName : Expr → String
  | .col c => c
  | .call f _ => f
  | .cast e _ => e.outputName
  | _ => "?column?"

/-! ## Grammar -/

abbrev Parser := StateT (List Token) (Except Error)

namespace Parser

variable {α : Type}

def fail : Parser α := do throw (.malformed (← get).head?)

def outOfFuel : Parser α := throw .exhausted

def peek : Parser (Option Token) := do return (← get).head?

def advance : Parser Unit := modify List.tail

/-- Read `t` if it comes next. -/
def accept (t : Token) : Parser Bool := do
  if (← peek) = some t then advance; return true else return false

def expect (t : Token) : Parser Unit := do
  unless ← accept t do fail

def ident : Parser String := do
  match ← peek with
  | some (.ident s) => advance; return s
  | _ => fail

/-- A name with its qualifiers. -/
def path : ℕ → Parser (List String)
  | 0 => outOfFuel
  | n + 1 => do
    let s ← ident
    if ← accept (.symbol .dot) then return s :: (← path n) else return [s]

/-- `[AS] name`. -/
def alias? : Parser (Option String) := do
  if ← accept (.keyword .AS) then return some (← ident)
  else match ← peek with
    | some (.ident s) => advance; return some s
    | _ => return none

def cmpOp? : Parser (Option CmpOp) := do
  match ← peek with
  | some (.symbol .eq) => advance; return some .eq
  | some (.symbol .ne) => advance; return some .ne
  | some (.symbol .lt) => advance; return some .lt
  | some (.symbol .le) => advance; return some .le
  | some (.symbol .gt) => advance; return some .gt
  | some (.symbol .ge) => advance; return some .ge
  | _ => return none

mutual

/-- `OR` binds weaker than `AND`, that weaker than `NOT`, that weaker than comparisons. -/
def expr : ℕ → Parser Expr
  | 0 => outOfFuel
  | n + 1 => do
    let a ← conj n
    if ← accept (.keyword .OR) then return .or a (← expr n) else return a

def conj : ℕ → Parser Expr
  | 0 => outOfFuel
  | n + 1 => do
    let a ← neg n
    if ← accept (.keyword .AND) then return .and a (← conj n) else return a

def neg : ℕ → Parser Expr
  | 0 => outOfFuel
  | n + 1 => do
    if ← accept (.keyword .NOT) then return .not (← neg n) else comparison n

/-- Comparisons do not chain. -/
def comparison : ℕ → Parser Expr
  | 0 => outOfFuel
  | n + 1 => do
    let a ← operand n
    if let some o ← cmpOp? then return .cmp o a (← operand n)
    else if ← accept (.keyword .IN) then
      expect (.symbol .lparen)
      let es ← exprs n
      expect (.symbol .rparen)
      return .isIn a es
    else if ← accept (.keyword .IS) then
      let negated ← accept (.keyword .NOT)
      expect (.keyword .NULL)
      return if negated then .not (.isNull a) else .isNull a
    else return a

def operand : ℕ → Parser Expr
  | 0 => outOfFuel
  | n + 1 => do casts n (← primary n)

def casts : ℕ → Expr → Parser Expr
  | 0, _ => outOfFuel
  | n + 1, e => do
    if ← accept (.symbol .cast) then casts n (.cast e (← path n)) else return e

def primary : ℕ → Parser Expr
  | 0 => outOfFuel
  | n + 1 => do
    match ← peek with
    | some (.num k) => advance; return .num k
    | some (.str s) => advance; return .str s
    | some (.param k) => advance; return .param k
    | some (.keyword .NULL) => advance; return .null
    | some (.keyword .TRUE) => advance; return .bool true
    | some (.keyword .FALSE) => advance; return .bool false
    | some (.symbol .lparen) =>
      advance
      if (← peek) = some (.keyword .SELECT) then
        let q ← select n
        expect (.symbol .rparen)
        return .query q
      else
        let es ← exprs n
        expect (.symbol .rparen)
        match es with
        | .cons e .nil => return e
        | es => return .row es
    | some (.ident s) =>
      advance
      if ← accept (.symbol .lparen) then
        if ← accept (.symbol .rparen) then return .call s .nil
        else
          let es ← exprs n
          expect (.symbol .rparen)
          return .call s es
      else return .col s
    | _ => fail

def exprs : ℕ → Parser Exprs
  | 0 => outOfFuel
  | n + 1 => do
    let e ← expr n
    if ← accept (.symbol .comma) then return .cons e (← exprs n) else return .cons e .nil

/-- The output columns of a query, with their names. -/
def items : ℕ → Parser (List String × Exprs)
  | 0 => outOfFuel
  | n + 1 => do
    let e ← expr n
    let name := (← alias?).getD e.outputName
    if ← accept (.symbol .comma) then
      let (names, es) ← items n
      return (name :: names, .cons e es)
    else return ([name], .cons e .nil)

/-- The sort keys of a query, and which of them descend. -/
def keys : ℕ → Parser (List Bool × Exprs)
  | 0 => outOfFuel
  | n + 1 => do
    let e ← expr n
    let desc ← accept (.keyword .DESC)
    unless desc do let _ ← accept (.keyword .ASC)
    if ← accept (.symbol .comma) then
      let (descs, es) ← keys n
      return (desc :: descs, .cons e es)
    else return ([desc], .cons e .nil)

def select : ℕ → Parser Select
  | 0 => outOfFuel
  | n + 1 => do
    expect (.keyword .SELECT)
    let (names, es) ← items n
    expect (.keyword .FROM)
    let table ← path n
    -- another name of the table; after it a clause or the end must follow
    let _ ← alias?
    let cond ← if ← accept (.keyword .WHERE) then expr n else pure (.bool true)
    let order ← accept (.keyword .ORDER)
    if order then expect (.keyword .BY)
    let (desc, ks) ← if order then keys n else pure ([], .nil)
    let limit ← if ← accept (.keyword .LIMIT) then expr n else pure .null
    -- row locks do not change the answer of a statement that runs alone
    if ← accept (.keyword .FOR) then
      expect (.keyword .UPDATE)
      if ← accept (.keyword .SKIP) then expect (.keyword .LOCKED)
    return .mk names es table cond desc ks limit

end

/-- `col = expr, ..`. -/
def assignments : ℕ → Parser (List String × Exprs)
  | 0 => outOfFuel
  | n + 1 => do
    let c ← ident
    expect (.symbol .eq)
    let e ← expr n
    if ← accept (.symbol .comma) then
      let (cs, es) ← assignments n
      return (c :: cs, .cons e es)
    else return ([c], .cons e .nil)

def update (n : ℕ) : Parser Update := do
  expect (.keyword .UPDATE)
  let table ← path n
  expect (.keyword .SET)
  let (cols, exprs) ← assignments n
  let cond ← if ← accept (.keyword .WHERE) then expr n else pure (.bool true)
  let (names, es) ← if ← accept (.keyword .RETURNING) then items n else pure ([], .nil)
  return { table, cols, exprs, cond, names, items := es }

/-- One statement, and nothing after it. -/
def statement (n : ℕ) : Parser Statement := do
  let s ← if (← peek) = some (.keyword .UPDATE) then .update <$> update n else .select <$> select n
  match ← peek with
  | none => return s
  | some _ => fail

end Parser

/-- The statement that a text spells. The fuel allows eight rules for each token. -/
def parseChars (cs : List Char) : Except Error Statement := do
  let ts ← lex cs
  (Parser.statement (8 * ts.length + 8)).run' ts

def parse (text : String) : Except Error Statement := parseChars text.toList

theorem parse_ofList (cs : List Char) : parse (String.ofList cs) = parseChars cs := by
  rw [parse, String.toList_ofList]

/-! ## Truth values -/

/-- `none` is unknown. -/
abbrev Truth := Option Bool

namespace Truth

def not (a : Truth) : Truth := a.map (!·)

def and : Truth → Truth → Truth
  | some false, _ => some false
  | _, some false => some false
  | some true, some true => some true
  | _, _ => none

def or (a b : Truth) : Truth := not (and (not a) (not b))

@[simp] theorem and_some (a b : Bool) : and (some a) (some b) = some (a && b) := by
  cases a <;> cases b <;> rfl

@[simp] theorem and_true (a : Truth) : and a (some true) = a := by
  rcases a with _ | _ | _ <;> rfl

@[simp] theorem and_eq_true {a b : Truth} :
    and a b = some true ↔ a = some true ∧ b = some true := by
  unfold and; split <;> simp_all

@[simp] theorem and_eq_false {a b : Truth} :
    and a b = some false ↔ a = some false ∨ b = some false := by
  unfold and; split <;> simp_all

@[simp] theorem or_some (a b : Bool) : or (some a) (some b) = some (a || b) := by
  cases a <;> cases b <;> rfl

end Truth

/-! ## Values -/

section Eval

variable {V : Type}

/-- A row value. A scalar is a row of one cell; `none` is `NULL`. -/
abbrev Cells (V : Type) := List (Option V)

/-- The cells of a record by column; `none` where there is no such column. -/
abbrev Record (V : Type) := String → Option (Option V)

/-- What a server knows of its values and tables. An answer `none` is an error. -/
structure Server (V : Type) where
  num : ℕ → V
  str : String → V
  compare : V → V → Option Ordering
  cast : List String → V → Option V
  call : String → Cells V → Option (Option V)
  limit : V → Option ℕ
  tables : List String → Option (List (Record V))

/-- A query inside an expression also sees the record around it. -/
def Record.within (r outer : Record V) : Record V := fun c => (r c).orElse fun _ => outer c

@[simp] theorem Record.within_none (r : Record V) : r.within (fun _ => none) = r := by
  funext c
  cases h : r c <;> simp [within, h]

/-- The record after an assignment to some columns. -/
def Record.assign (r : Record V) (cols : List String) (vs : Cells V) : Record V :=
  fun c => ((cols.zip vs).lookup c).orElse fun _ => r c

theorem Record.assign_of_notMem (r : Record V) {cols : List String} (vs : Cells V) {c : String}
    (hc : c ∉ cols) : r.assign cols vs c = r c := by
  have hnone : (cols.zip vs).lookup c = none := by
    rw [List.lookup_eq_none_iff]
    intro p hp
    have hmem := (List.of_mem_zip hp).1
    rw [bne_iff_ne]
    rintro rfl
    exact hc hmem
  rw [assign, hnone]
  rfl

namespace Server

variable (S : Server V)

/-- The order of two cells; unknown when one is `NULL`. -/
def cellOrder : Option V → Option V → Option (Option Ordering)
  | some a, some b => (S.compare a b).map some
  | _, _ => some none

@[simp] theorem cellOrder_none_left (v : Option V) : S.cellOrder none v = some none := rfl

/-- Rows are equal when all their cells are, and different when two of them are. -/
def rowEq : Cells V → Cells V → Option Truth
  | [], [] => some (some true)
  | a :: as, b :: bs => do
    return Truth.and ((← S.cellOrder a b).map fun o => o = .eq) (← rowEq as bs)
  | _, _ => none

/-- The order of two rows is that of their first cells that differ. -/
def rowOrder : Cells V → Cells V → Option (Option Ordering)
  | [], [] => some (some .eq)
  | a :: as, b :: bs => do
    match ← S.cellOrder a b with
    | some .eq => rowOrder as bs
    | o => return o
  | _, _ => none

@[simp] theorem rowOrder_singleton (a b : Option V) : S.rowOrder [a] [b] = S.cellOrder a b := by
  simp only [rowOrder, Option.bind_eq_bind]
  rcases S.cellOrder a b with _ | _ | _ | _ | _ <;> rfl

theorem rowOrder_cons {α : Type*} [LinearOrder α] {x y : α} {a b : Option V} {as bs : Cells V}
    (h : S.cellOrder a b = some (some (Ord.compare x y))) :
    S.rowOrder (a :: as) (b :: bs) =
      if x = y then S.rowOrder as bs else some (some (Ord.compare x y)) := by
  simp only [rowOrder, Option.bind_eq_bind, h, Option.bind_some]
  split_ifs with hxy
  · rw [compare_eq_iff_eq.mpr hxy]
  · cases hc : Ord.compare x y with
    | eq => exact absurd (compare_eq_iff_eq.mp hc) hxy
    | lt | gt => rfl

/-- Sort keys compare with `NULL` above every value. -/
def keyOrder : Option V → Option V → Ordering
  | none, none => .eq
  | none, some _ => .gt
  | some _, none => .lt
  | some a, some b => (S.compare a b).getD .eq

/-- Whether the first row of keys may stand before the second. -/
def keysLe : List Bool → Cells V → Cells V → Bool
  | desc :: ds, a :: as, b :: bs =>
    match S.keyOrder a b with
    | .lt => !desc
    | .gt => desc
    | .eq => keysLe ds as bs
  | _, _, _ => true

/-- A sort key decides where it tells the rows apart. -/
theorem keysLe_cons {α : Type*} [LinearOrder α] {x y : α} {a b : V} {desc : Bool} {ds : List Bool}
    {as bs : Cells V} (h : S.compare a b = some (Ord.compare x y)) :
    S.keysLe (desc :: ds) (some a :: as) (some b :: bs) = true ↔
      (if desc then y < x else x < y) ∨ x = y ∧ S.keysLe ds as bs = true := by
  have hkey : S.keyOrder (some a) (some b) = Ord.compare x y := by
    rw [keyOrder, h, Option.getD_some]
  rw [keysLe, hkey]
  rcases lt_trichotomy x y with hlt | rfl | hgt
  · rw [compare_lt_iff_lt.mpr hlt]
    cases desc <;> simp [hlt, hlt.ne, hlt.le]
  · rw [compare_eq_iff_eq.mpr rfl]
    simp
  · rw [compare_gt_iff_gt.mpr hgt]
    cases desc <;> simp [hgt, hgt.ne', hgt.le]

/-- The number of rows that a `LIMIT` allows; `NULL` allows all. -/
def limitOf : Cells V → Option (Option ℕ)
  | [none] => some none
  | [some v] => (S.limit v).map some
  | _ => none

end Server

/-- The rows on which `p` holds, if it can be computed on all. -/
def keepM {α : Type} (p : α → Option Bool) : List α → Option (List α)
  | [] => some []
  | a :: as => do
    let b ← p a
    let rest ← keepM p as
    return if b then a :: rest else rest

/-- The first rows of a list; an absent limit keeps all. -/
def takeLimit {α : Type} (l : List α) : Option ℕ → List α
  | none => l
  | some n => l.take n

/-! ## Expressions and queries -/

section

variable (S : Server V) (ps : Cells V)

def CmpOp.holds (a b : Cells V) : CmpOp → Option Truth
  | .eq => S.rowEq a b
  | .ne => (S.rowEq a b).map Truth.not
  | .lt => (S.rowOrder a b).map (·.map fun o => o = .lt)
  | .le => (S.rowOrder a b).map (·.map fun o => o ≠ .gt)
  | .gt => (S.rowOrder a b).map (·.map fun o => o = .gt)
  | .ge => (S.rowOrder a b).map (·.map fun o => o ≠ .lt)

mutual

def Expr.cells : Expr → Record V → Option (Cells V)
  | .null, _ => some [none]
  | .num n, _ => some [some (S.num n)]
  | .str s, _ => some [some (S.str s)]
  | .param 0, _ => none
  | .param (n + 1), _ => ps[n]?.map fun v => [v]
  | .col c, r => (r c).map fun v => [v]
  | .call f es, r => do return [← S.call f (← es.cells r)]
  | .cast e type, r => do
    match ← e.cells r with
    | [some v] => return [some (← S.cast type v)]
    | [none] => return [none]
    | _ => none
  | .row es, r => es.cells r
  | .query q, r => do
    match ← q.rows r with
    | [] => return List.replicate q.names.length none
    | [vs] => return vs
    | _ => none
  | _, _ => none

def Expr.truth : Expr → Record V → Option Truth
  | .bool b, _ => some (some b)
  | .cmp o a b, r => do o.holds S (← a.cells r) (← b.cells r)
  | .isIn a es, r => do es.anyEq (← a.cells r) r
  | .isNull a, r => do return some ((← a.cells r).all Option.isNone)
  | .not a, r => do return Truth.not (← a.truth r)
  | .and a b, r => do return Truth.and (← a.truth r) (← b.truth r)
  | .or a b, r => do return Truth.or (← a.truth r) (← b.truth r)
  | _, _ => none

/-- Every expression of a list is a scalar. -/
def Exprs.cells : Exprs → Record V → Option (Cells V)
  | .nil, _ => some []
  | .cons e es, r => do
    match ← e.cells r with
    | [v] => return v :: (← es.cells r)
    | _ => none

def Exprs.anyEq : Exprs → Cells V → Record V → Option Truth
  | .nil, _, _ => some (some false)
  | .cons e es, a, r => do return Truth.or (← S.rowEq a (← e.cells r)) (← es.anyEq a r)

/-- The rows of a query inside the record `outer`. -/
def Select.rows : Select → Record V → Option (List (Cells V))
  | .mk _ items table cond desc keys limit, outer => do
    let kept ← keepM (fun r => (cond.truth (r.within outer)).map fun t => t = some true)
      (← S.tables table)
    let keyed ← kept.mapM fun r => do return (← keys.cells (r.within outer), r)
    let n ← S.limitOf (← limit.cells fun _ => none)
    (takeLimit (keyed.insertionSort fun a b => S.keysLe desc a.1 b.1) n).mapM fun p =>
      items.cells (p.2.within outer)

end

attribute [simp] Exprs.of Expr.cells Exprs.cells Expr.truth Exprs.anyEq CmpOp.holds Server.rowEq

/-- Whether a `WHERE` clause selects a record: unknown is as good as false. -/
def Expr.selects (e : Expr) (r : Record V) : Option Bool :=
  (e.truth S ps r).map fun t => t = some true

theorem Expr.selects_eq {e : Expr} {r : Record V} {t : Truth} {b : Bool}
    (h : e.truth S ps r = some t) (hb : t = some true ↔ b = true) : e.selects S ps r = some b := by
  rw [selects, h, Option.map_some, Option.some.injEq, Bool.eq_iff_iff, decide_eq_true_iff]
  exact hb

theorem Expr.truth_and {a b : Expr} {r : Record V} {t u : Truth} (ha : a.truth S ps r = some t)
    (hb : b.truth S ps r = some u) : (Expr.and a b).truth S ps r = some (Truth.and t u) := by
  rw [truth, ha, hb]
  rfl

/-- What an update makes of a record of its table; `some none` leaves it as it is. -/
def Update.image (u : Update) (r : Record V) : Option (Option (Record V)) := do
  if ← u.cond.selects S ps r then return some (r.assign u.cols (← u.exprs.cells S ps r))
  else return none

/-- The table after an update. -/
def Update.run (u : Update) : Option (List (Record V)) := do
  (← S.tables u.table).mapM fun r => do return (← u.image S ps r).getD r

/-- The rows of `RETURNING`: the selected records, as the update leaves them. -/
def Update.returned (u : Update) : Option (List (Cells V)) := do
  let images ← (← S.tables u.table).mapM (u.image S ps)
  (images.filterMap id).mapM (u.items.cells S ps)

/-- The rows that a statement answers with. -/
def Statement.rows : Statement → Option (List (Cells V))
  | select q => q.rows S ps fun _ => none
  | update u => u.returned S ps

/-! ## What they compute -/

variable {α β ρ : Type} {enc : ρ → Record V} {rs : List ρ}

theorem mapM_eq_map {f : α → Option β} {g : α → β} {l : List α} (h : ∀ a ∈ l, f a = some (g a)) :
    l.mapM f = some (l.map g) := by
  induction l with
  | nil => rfl
  | cons a l ih =>
    have ha := h a List.mem_cons_self
    have hl := ih fun b hb => h b (List.mem_cons_of_mem a hb)
    simp [List.mapM_cons, ha, hl]

theorem keepM_map {f : β → Option Bool} {e : α → β} {c : α → Bool} {l : List α}
    (h : ∀ a ∈ l, f (e a) = some (c a)) : keepM f (l.map e) = some ((l.filter c).map e) := by
  induction l with
  | nil => rfl
  | cons a l ih =>
    have ha := h a List.mem_cons_self
    have hl := ih fun b hb => h b (List.mem_cons_of_mem a hb)
    simp only [List.map_cons, keepM, ha, hl, Option.bind_eq_bind, Option.bind_some, Option.pure_def,
      List.filter_cons]
    split <;> rfl

theorem takeLimit_map (f : α → β) (l : List α) (n : Option ℕ) :
    takeLimit (l.map f) n = (takeLimit l n).map f := by
  cases n with
  | none => rfl
  | some n => exact List.map_take.symm

theorem takeLimit_subset (l : List α) (n : Option ℕ) : takeLimit l n ⊆ l := by
  cases n with
  | none => exact List.Subset.refl l
  | some n => exact List.take_subset n l

/-- A query whose clauses can be computed on every record of its table. -/
theorem Select.rows_eq {names : List String} {items keys : Exprs} {table : List String}
    {cond limit : Expr} {desc : List Bool} {outer : Record V} {c : ρ → Bool} {k p : ρ → Cells V}
    {le : ρ → ρ → Prop} [DecidableRel le] {n : Option ℕ}
    (ht : S.tables table = some (rs.map enc))
    (hc : ∀ r ∈ rs, cond.selects S ps ((enc r).within outer) = some (c r))
    (hk : ∀ r ∈ rs, keys.cells S ps ((enc r).within outer) = some (k r))
    (hle : ∀ a ∈ rs, ∀ b ∈ rs, le a b ↔ S.keysLe desc (k a) (k b) = true)
    (hn : (limit.cells S ps fun _ => none).bind S.limitOf = some n)
    (hp : ∀ r ∈ rs, items.cells S ps ((enc r).within outer) = some (p r)) :
    (Select.mk names items table cond desc keys limit).rows S ps outer =
      some ((takeLimit ((rs.filter c).insertionSort le) n).map p) := by
  have hkept : keepM (fun r => (cond.truth S ps (r.within outer)).map fun t => t = some true)
      (rs.map enc) = some ((rs.filter c).map enc) := keepM_map hc
  have hkeyed : ((rs.filter c).map enc).mapM
      (fun r => (keys.cells S ps (r.within outer)).bind fun x => some (x, r)) =
        some ((rs.filter c).map fun r => (k r, enc r)) := by
    rw [List.mapM_map]
    refine mapM_eq_map fun r hr => ?_
    rw [Function.comp_apply, hk r (List.mem_of_mem_filter hr), Option.bind_some]
  have hsort : ((rs.filter c).map fun r => (k r, enc r)).insertionSort
      (fun a b => S.keysLe desc a.1 b.1 = true) =
        ((rs.filter c).insertionSort le).map fun r => (k r, enc r) :=
    (List.map_insertionSort le _ _ _ fun a ha b hb =>
      hle a (List.mem_of_mem_filter ha) b (List.mem_of_mem_filter hb)).symm
  simp only [Select.rows, ht, Option.bind_eq_bind, Option.bind_some, Option.pure_def, hkept,
    hkeyed, hsort, takeLimit_map]
  cases hl : limit.cells S ps fun _ => none with
  | none => rw [hl] at hn; cases hn
  | some l =>
    rw [hl, Option.bind_some] at hn
    rw [Option.bind_some, hn, Option.bind_some, List.mapM_map]
    refine mapM_eq_map fun r hr => ?_
    have hmem := (List.mem_insertionSort le).mp (takeLimit_subset _ _ hr)
    exact hp r (List.mem_of_mem_filter hmem)

theorem Update.image_eq {u : Update} {r r' : Record V} {b : Bool} {vs : Cells V}
    (hc : u.cond.selects S ps r = some b) (hv : u.exprs.cells S ps r = some vs)
    (hr : b = true → r.assign u.cols vs = r') :
    u.image S ps r = some (if b then some r' else none) := by
  simp only [image, hc, hv, Option.bind_eq_bind, Option.bind_some, Option.pure_def]
  cases b with
  | false => rfl
  | true => rw [hr rfl]; rfl

/-- An update whose clauses can be computed on every record of its table. -/
theorem Update.run_eq {u : Update} {c : ρ → Bool} {f : ρ → Record V} {vs : ρ → Cells V}
    (ht : S.tables u.table = some (rs.map enc))
    (hc : ∀ r ∈ rs, u.cond.selects S ps (enc r) = some (c r))
    (hv : ∀ r ∈ rs, u.exprs.cells S ps (enc r) = some (vs r))
    (hf : ∀ r ∈ rs, c r = true → (enc r).assign u.cols (vs r) = f r) :
    u.run S ps = some (rs.map fun r => if c r then f r else enc r) := by
  simp only [run, ht, Option.bind_eq_bind, Option.bind_some, List.mapM_map]
  refine mapM_eq_map fun r hr => ?_
  rw [Function.comp_apply, image_eq S ps (hc r hr) (hv r hr) (hf r hr)]
  cases c r <;> rfl

theorem Update.returned_eq {u : Update} {c : ρ → Bool} {f : ρ → Record V} {vs p : ρ → Cells V}
    (ht : S.tables u.table = some (rs.map enc))
    (hc : ∀ r ∈ rs, u.cond.selects S ps (enc r) = some (c r))
    (hv : ∀ r ∈ rs, u.exprs.cells S ps (enc r) = some (vs r))
    (hf : ∀ r ∈ rs, c r = true → (enc r).assign u.cols (vs r) = f r)
    (hp : ∀ r ∈ rs, u.items.cells S ps (f r) = some (p r)) :
    u.returned S ps = some ((rs.filter c).map p) := by
  have himages : (rs.map enc).mapM (u.image S ps) =
      some (rs.map fun r => if c r then some (f r) else none) := by
    rw [List.mapM_map]
    exact mapM_eq_map fun r hr => image_eq S ps (hc r hr) (hv r hr) (hf r hr)
  have hkept : (rs.map fun r => if c r then some (f r) else none).filterMap id =
      (rs.filter c).map f := by
    rw [List.filterMap_map, ← List.filterMap_eq_map, List.filterMap_filter]
    rfl
  simp only [returned, ht, Option.bind_eq_bind, Option.bind_some, himages, hkept, List.mapM_map]
  exact mapM_eq_map fun r hr => hp r (List.mem_of_mem_filter hr)

/-- A query without `ORDER BY` keeps the order of the table. -/
theorem Select.rows_unordered {names : List String} {items : Exprs} {table : List String}
    {cond limit : Expr} {outer : Record V} {c : ρ → Bool} {p : ρ → Cells V} {n : Option ℕ}
    (ht : S.tables table = some (rs.map enc))
    (hc : ∀ r ∈ rs, cond.selects S ps ((enc r).within outer) = some (c r))
    (hn : (limit.cells S ps fun _ => none).bind S.limitOf = some n)
    (hp : ∀ r ∈ rs, items.cells S ps ((enc r).within outer) = some (p r)) :
    (Select.mk names items table cond [] .nil limit).rows S ps outer =
      some ((takeLimit (rs.filter c) n).map p) := by
  have hsort : (rs.filter c).insertionSort (fun _ _ => True) = rs.filter c :=
    List.Pairwise.insertionSort_eq (List.pairwise_of_forall fun _ _ => trivial)
  have hle : ∀ a ∈ rs, ∀ b ∈ rs, True ↔ S.keysLe [] ([] : Cells V) [] = true := by
    intro a _ b _
    simp only [Server.keysLe]
  rw [rows_eq S ps ht hc (fun r _ => rfl) hle hn hp, hsort]

end

end Eval

end Sql
