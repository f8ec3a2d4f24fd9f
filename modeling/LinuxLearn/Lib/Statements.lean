import LinuxLearn.Lib.Sql

/-!
# Statements — the meaning of simple SQL statements

The fragment of SQL in which tables are written and searched by text columns:

- `insert into T(c, …) values(v, …)`,
- `select * from T where e`, with or without `order by c`, where the condition `e` is made of
  equations between columns and literals, `and` binding more closely than `or`.

Only the first statement of a text is looked at.  The result of a `select` is not one list of rows
but any list that has the right rows in an order that is asked for; text is ordered by bytes.
-/

namespace LinuxLearn
namespace Lib
namespace Sql

/-- A keyword, as the statements of the fragment write it. -/
def kw (s : String) : Token :=
  .word (ascii s)

/-- The tokens of the first statement. -/
def firstStatement (toks : List Token) : List Token :=
  toks.takeWhile fun tok => tok != .symbol semicolon

/-- A table with rows of type `ρ`. -/
structure Table (ρ : Type*) where
  name : Text
  columns : List Text
  column : Text → ρ → Text

/-! ## Conditions -/

inductive Operand
  | column (name : Text)
  | value (v : Text)
  deriving DecidableEq, Repr

abbrev Equation := Operand × Operand

/-- The alternatives of a condition, each a list of equations. -/
abbrev Condition := List (List Equation)

def operand : Token → Option Operand
  | .word w => some (.column w)
  | .literal v => some (.value v)
  | _ => none

/-- `a = b` -/
def equation : Token → Token → Token → Option Equation
  | a, .symbol 61, b => (operand a).bind fun x => (operand b).map fun y => (x, y)
  | _, _, _ => none

/-- One more equation for the first alternative. -/
def Condition.and (e : Equation) : Condition → Condition
  | [] => [[e]]
  | es :: cond => (e :: es) :: cond

/-- The end of a `select`: nothing, or `order by c`. -/
def parseOrder : List Token → Option (Option Text)
  | [] => some none
  | [o, b, .word c] => if o = kw "order" ∧ b = kw "by" then some (some c) else none
  | _ => none

/-- A condition and what follows it. -/
def parseCondition : List Token → Option (Condition × Option Text)
  | a :: eq :: b :: k :: rest =>
      (equation a eq b).bind fun e =>
        if k = kw "and" then (parseCondition rest).map fun p => (Condition.and e p.1, p.2)
        else if k = kw "or" then (parseCondition rest).map fun p => ([e] :: p.1, p.2)
        else (parseOrder (k :: rest)).map fun o => ([[e]], o)
  | [a, eq, b] => (equation a eq b).map fun e => ([[e]], none)
  | _ => none

def Operand.eval {ρ : Type*} (T : Table ρ) (row : ρ) : Operand → Text
  | .column c => T.column c row
  | .value v => v

def Condition.holds {ρ : Type*} (T : Table ρ) (row : ρ) (cond : Condition) : Bool :=
  cond.any fun es => es.all fun e => e.1.eval T row == e.2.eval T row

/-! ## `select` -/

structure Select where
  table : Text
  cond : Condition
  order : Option Text
  deriving DecidableEq, Repr

def parseSelect : List Token → Option Select
  | s :: .symbol 42 :: f :: .word table :: w :: rest =>
      if s = kw "select" ∧ f = kw "from" ∧ w = kw "where" then
        (parseCondition rest).map fun p => ⟨table, p.1, p.2⟩
      else none
  | _ => none

/-- The columns that an operand names. -/
def Operand.columns : Operand → List Text
  | .column c => [c]
  | .value _ => []

def Select.columns (q : Select) : List Text :=
  (q.cond.flatMap fun es => es.flatMap fun e => e.1.columns ++ e.2.columns) ++ q.order.toList

section Meaning

variable {ρ : Type*} (T : Table ρ)

/-- The statement that the text is, if the table is there and has all columns named. -/
def prepareSelect (text : Text) : Option Select :=
  (parseSelect (firstStatement (lex text))).filter fun q =>
    q.table == T.name && q.columns.all fun c => T.columns.contains c

/-- The rows that meet the condition. -/
def Select.rows (q : Select) (table : List ρ) : List ρ :=
  table.filter fun row => q.cond.holds T row

/-- The lists that the statement may deliver. -/
structure Select.Delivers (q : Select) (table result : List ρ) : Prop where
  perm : result.Perm (q.rows T table)
  sorted : ∀ c, q.order = some c →
    result.Pairwise fun row row' => ¬ T.column c row' < T.column c row

variable {T} {q : Select} {table result : List ρ} {c : Text} {row row' : ρ}

/-- A row comes before those with a greater value in the column of the order. -/
theorem Select.Delivers.not_sublist (h : q.Delivers T table result) (horder : q.order = some c)
    (hlt : T.column c row < T.column c row') : ¬ [row', row].Sublist result := by
  intro hsub
  have hpair := (h.sorted c horder).sublist hsub
  exact List.rel_of_pairwise_cons hpair (List.mem_singleton_self row) hlt

/-- Two rows may come in either order, unless the column forbids it. -/
theorem Select.exists_delivers (horder : q.order = some c) {rows : List ρ}
    (hrows : rows.Perm (q.rows T table)) (hsub : [row, row'].Sublist rows)
    (hle : ¬ T.column c row' < T.column c row) :
    ∃ result, q.Delivers T table result ∧ [row, row'].Sublist result := by
  -- Sorting keeps two rows in order that need not be swapped.
  let le : ρ → ρ → Bool := fun a b => decide (T.column c a ≤ T.column c b)
  have htrans : ∀ x y z, le x y = true → le y z = true → le x z = true := by
    intro x y z hxy hyz
    simp only [le, decide_eq_true_eq] at hxy hyz ⊢
    exact List.le_trans hxy hyz
  have htotal : ∀ x y, (le x y || le y x) = true := by
    intro x y
    simpa [le] using List.le_total (T.column c x) (T.column c y)
  have hfirst : le row row' = true := by simpa [le] using hle
  refine ⟨rows.mergeSort le, ⟨(List.mergeSort_perm rows le).trans hrows, ?_⟩,
    List.pair_sublist_mergeSort htrans htotal hfirst hsub⟩
  intro c' hc'
  cases horder.symm.trans hc'
  refine (List.pairwise_mergeSort htrans htotal rows).imp fun {a b} hab => ?_
  simpa [le] using hab

end Meaning

/-! ## `insert` -/

/-- The items of a list in parentheses, and what follows it. -/
def parseItems : List Token → Option (List Text × List Token)
  | .word w :: .symbol 41 :: rest => some ([w], rest)
  | .literal v :: .symbol 41 :: rest => some ([v], rest)
  | .word w :: .symbol 44 :: rest => (parseItems rest).map fun p => (w :: p.1, p.2)
  | .literal v :: .symbol 44 :: rest => (parseItems rest).map fun p => (v :: p.1, p.2)
  | _ => none

structure Insert where
  table : Text
  columns : List Text
  values : List Text
  deriving DecidableEq, Repr

def parseInsert : List Token → Option Insert
  | i :: n :: .word table :: .symbol 40 :: rest =>
      if i = kw "insert" ∧ n = kw "into" then
        (parseItems rest).bind fun p =>
          match p.2 with
          | v :: .symbol 40 :: rest' =>
              if v = kw "values" then
                (parseItems rest').bind fun r =>
                  if r.2 = [] ∧ p.1.length = r.1.length then some ⟨table, p.1, r.1⟩ else none
              else none
          | _ => none
      else none
  | _ => none

def prepareInsert (name : Text) (columns : List Text) (text : Text) : Option Insert :=
  (parseInsert (firstStatement (lex text))).filter fun q =>
    q.table == name && q.columns.all fun c => columns.contains c

/-- The row inserted, as the value of each column; a column left out has no value. -/
def Insert.value (q : Insert) (c : Text) : Option Text :=
  (q.columns.zip q.values).lookup c

end Sql
end Lib
end LinuxLearn
