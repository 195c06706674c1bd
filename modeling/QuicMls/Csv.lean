import QuicMls.Machine

/-! Comma-separated records: what a writer that never quotes puts down, and the excel
dialect of Python's `csv`, which reads character by character and takes the header for the
names of the columns. -/
namespace QuicMls.Csv

/-! ### Lines -/

def isNewline (char : Char) : Bool := char == '\n' || char == '\r'

/-- The lines of a text, each with what ends it. -/
def lines : List Char → List (List Char)
  | [] => []
  | char :: rest =>
      if char = '\n' ∨ (char = '\r' ∧ rest.head? ≠ some '\n') then [char] :: lines rest
      else match lines rest with
        | [] => [[char]]
        | line :: more => (char :: line) :: more

theorem lines_append {line : List Char} (unbroken : ∀ char ∈ line, isNewline char = false) (rest : List Char) :
    lines (line ++ '\n' :: rest) = (line ++ ['\n']) :: lines rest := by
  induction line with
  | nil => rfl
  | cons char line ih =>
      have inside := unbroken char List.mem_cons_self
      rw [isNewline, Bool.or_eq_false_iff, beq_eq_false_iff_ne, beq_eq_false_iff_ne] at inside
      have goesOn : ¬ (char = '\n' ∨ (char = '\r' ∧ (line ++ '\n' :: rest).head? ≠ some '\n')) := by
        rintro (ends | ⟨ends, -⟩)
        · exact inside.1 ends
        · exact inside.2 ends
      rw [List.cons_append, lines, if_neg goesOn,
        ih fun char member => unbroken char (List.mem_cons_of_mem _ member)]
      rfl

/-! ### Reading -/

inductive State where
  | startRecord
  | startField
  | inField
  | inQuotedField
  | quoteInQuotedField
  | eatCrnl
  deriving DecidableEq

structure Parser where
  state : State
  field : List Char
  fields : List (List Char)
  deriving DecidableEq

def Parser.start : Parser := { state := .startRecord, field := [], fields := [] }

def Parser.goto (parser : Parser) (state : State) : Parser := { parser with state }

def Parser.save (parser : Parser) (state : State) : Parser :=
  { state, field := [], fields := parser.fields ++ [parser.field] }

def Parser.add (parser : Parser) (char : Char) (state : State) : Parser :=
  { parser with state, field := parser.field ++ [char] }

/-- A character where a field begins. -/
def Parser.startField (parser : Parser) (char : Char) : Parser :=
  if isNewline char then parser.save .eatCrnl
  else if char = '"' then parser.goto .inQuotedField
  else if char = ',' then parser.save .startField
  else parser.add char .inField

/-- A character, or the end of a line (`none`). Behind a line break there is only more of
it. -/
def step (parser : Parser) : Option Char → Option Parser
  | none => match parser.state with
      | .startRecord => some parser
      | .startField => some (parser.save .startRecord)
      | .inField => some (parser.save .startRecord)
      | .inQuotedField => some parser
      | .quoteInQuotedField => some (parser.save .startRecord)
      | .eatCrnl => some (parser.goto .startRecord)
  | some char => match parser.state with
      | .startRecord => some (if isNewline char then parser.goto .eatCrnl else parser.startField char)
      | .startField => some (parser.startField char)
      | .inField =>
          some (if isNewline char then parser.save .eatCrnl
            else if char = ',' then parser.save .startField
            else parser.add char .inField)
      | .inQuotedField =>
          some (if char = '"' then parser.goto .quoteInQuotedField else parser.add char .inQuotedField)
      | .quoteInQuotedField =>
          some (if char = '"' then parser.add char .inQuotedField
            else if char = ',' then parser.save .startField
            else if isNewline char then parser.save .eatCrnl
            else parser.add char .inField)
      | .eatCrnl => if isNewline char then some parser else none

def feed (parser : Parser) (line : List Char) : Option Parser :=
  Machine.run step parser (line.map some ++ [none])

/-- A record ends with its line, but for one that is quoted there. -/
def readLines (parser : Parser) : List (List Char) → Option (List (List (List Char)))
  | [] =>
      some (if parser.field ≠ [] ∨ parser.state = .inQuotedField then [parser.fields ++ [parser.field]] else [])
  | line :: rest => (feed parser line).bind fun parser =>
      if parser.state = .startRecord then (readLines Parser.start rest).map (parser.fields :: ·)
      else readLines parser rest

def read (text : List Char) : Option (List (List (List Char))) := readLines Parser.start (lines text)

/-! ### Writing -/

def writeRecord : List (List Char) → List Char
  | [] => ['\n']
  | [field] => field ++ ['\n']
  | field :: rest => field ++ ',' :: writeRecord rest

def write (records : List (List (List Char))) : List Char := records.flatMap writeRecord

/-- Nothing in the field ends it, and no quote starts it. -/
def Plain (field : List Char) : Prop := ∀ char ∈ field, isNewline char = false ∧ char ≠ ',' ∧ char ≠ '"'

/-- A line of its own: a record of one empty field leaves its line empty. -/
structure PlainRecord (record : List (List Char)) : Prop where
  fields : ∀ field ∈ record, Plain field
  begins : record ≠ []
  shows : record ≠ [[]]

theorem writeRecord_cons_cons (field next : List Char) (record : List (List Char)) :
    writeRecord (field :: next :: record) = field ++ ',' :: writeRecord (next :: record) := rfl

/-! ### Reading what was written -/

/-- The characters of a plain field go through one by one. -/
theorem run_inField {field : List Char} (plain : Plain field) (parser : Parser)
    (inside : parser.state = .inField) (rest : List (Option Char)) :
    Machine.run step parser (field.map some ++ rest) =
      Machine.run step { parser with field := parser.field ++ field } rest := by
  induction field generalizing parser with
  | nil => rw [List.append_nil, List.map_nil, List.nil_append]
  | cons char field ih =>
      obtain ⟨goesOn, comma, -⟩ := plain char List.mem_cons_self
      have taken : step parser (some char) = some (parser.add char .inField) := by
        simp [step, inside, goesOn, comma]
      rw [List.map_cons, List.cons_append, Machine.run, taken, Option.bind_some,
        ih (fun char member => plain char (List.mem_cons_of_mem _ member)) _ rfl]
      simp [Parser.add, inside]

/-- Where a plain field begins, it is read up to what ends it. -/
theorem run_field {field : List Char} (plain : Plain field) (fields : List (List Char))
    (rest : List (Option Char)) :
    ∃ state, (state = .startField ∨ state = .inField) ∧
      Machine.run step { state := .startField, field := [], fields } (field.map some ++ rest) =
        Machine.run step { state, field, fields } rest := by
  cases field with
  | nil => exact ⟨.startField, Or.inl rfl, rfl⟩
  | cons char field =>
      refine ⟨.inField, Or.inr rfl, ?_⟩
      obtain ⟨goesOn, comma, quote⟩ := plain char List.mem_cons_self
      have taken : step { state := .startField, field := [], fields } (some char) =
          some { state := .inField, field := [char], fields } := by
        simp [step, Parser.startField, Parser.add, goesOn, comma, quote]
      rw [List.map_cons, List.cons_append, Machine.run, taken, Option.bind_some,
        run_inField (fun char member => plain char (List.mem_cons_of_mem _ member)) _ rfl]
      rfl

theorem feed_startField {record : List (List Char)} (plain : ∀ field ∈ record, Plain field)
    (begins : record ≠ []) (fields : List (List Char)) :
    feed { state := .startField, field := [], fields } (writeRecord record) =
      some { state := .startRecord, field := [], fields := fields ++ record } := by
  induction record generalizing fields with
  | nil => exact absurd rfl begins
  | cons field record ih =>
      have first := plain field List.mem_cons_self
      cases record with
      | nil =>
          rw [feed, writeRecord, List.map_append, List.append_assoc]
          obtain ⟨state, inside, same⟩ := run_field first fields ([some '\n'] ++ [none])
          rw [List.map_singleton, same]
          rcases inside with rfl | rfl <;> rfl
      | cons next record =>
          rw [feed, writeRecord_cons_cons, List.map_append, List.append_assoc]
          obtain ⟨state, inside, same⟩ := run_field first fields
            ((',' :: writeRecord (next :: record)).map some ++ [none])
          have later := ih (fun field member => plain field (List.mem_cons_of_mem _ member)) (by simp)
            (fields ++ [field])
          have ended : step { state, field, fields } (some ',') =
              some { state := .startField, field := [], fields := fields ++ [field] } := by
            rcases inside with rfl | rfl <;> rfl
          rw [same, List.map_cons, List.cons_append, Machine.run, ended, Option.bind_some]
          rw [feed, List.append_assoc] at later
          exact later

/-- A line is not empty, so its first character decides as in the middle of a record. -/
theorem feed_writeRecord {record : List (List Char)} (plain : PlainRecord record) :
    feed Parser.start (writeRecord record) =
      some { state := .startRecord, field := [], fields := record } := by
  have inside := feed_startField plain.fields plain.begins []
  obtain ⟨char, rest, same, goesOn⟩ :
      ∃ char rest, writeRecord record = char :: rest ∧ isNewline char = false := by
    match record, plain with
    | [[]], plain => exact absurd rfl plain.shows
    | [char :: field], plain =>
        exact ⟨char, field ++ ['\n'], rfl, (plain.fields (char :: field) (by simp) char (by simp)).1⟩
    | [] :: next :: record, plain => exact ⟨',', writeRecord (next :: record), rfl, rfl⟩
    | (char :: field) :: next :: record, plain =>
        exact ⟨char, field ++ ',' :: writeRecord (next :: record), rfl,
          (plain.fields (char :: field) (by simp) char (by simp)).1⟩
  rw [same, feed, List.map_cons, List.cons_append, Machine.run] at inside ⊢
  have agrees : step Parser.start (some char) =
      step { state := .startField, field := [], fields := [] } (some char) := by
    simp [step, Parser.start, Parser.startField, Parser.goto, Parser.save, Parser.add, goesOn]
  rw [agrees, inside, List.nil_append]

theorem writeRecord_unbroken {record : List (List Char)} (plain : ∀ field ∈ record, Plain field) :
    ∃ line, writeRecord record = line ++ ['\n'] ∧ ∀ char ∈ line, isNewline char = false := by
  induction record with
  | nil => exact ⟨[], rfl, by simp⟩
  | cons field record ih =>
      have first := plain field List.mem_cons_self
      cases record with
      | nil => exact ⟨field, rfl, fun char member => (first char member).1⟩
      | cons next record =>
          obtain ⟨line, same, unbroken⟩ := ih fun field member => plain field (List.mem_cons_of_mem _ member)
          refine ⟨field ++ ',' :: line, by rw [writeRecord_cons_cons, same, List.append_assoc]; rfl,
            fun char member => ?_⟩
          rcases List.mem_append.mp member with member | member
          · exact (first char member).1
          · rcases List.mem_cons.mp member with rfl | member
            · rfl
            · exact unbroken char member

/-- What is written is read back, record for record. -/
theorem read_write {records : List (List (List Char))} (plain : ∀ record ∈ records, PlainRecord record) :
    read (write records) = some records := by
  induction records with
  | nil => rfl
  | cons record records ih =>
      have here := plain record List.mem_cons_self
      obtain ⟨line, same, unbroken⟩ := writeRecord_unbroken here.fields
      have later := ih fun record member => plain record (List.mem_cons_of_mem _ member)
      rw [read] at later ⊢
      rw [write, List.flatMap_cons, ← write, same, List.append_assoc, List.singleton_append,
        lines_append unbroken, readLines, ← same, feed_writeRecord here, Option.bind_some, if_pos rfl, later]
      rfl

/-! ### Columns -/

/-- Where a column is: of two with one name, the last. -/
def column (names : List (List Char)) (name : List Char) : Option Nat :=
  (names.zipIdx.reverse.find? fun entry => entry.1 == name).map Prod.snd

/-- A record under the names of the header: a missing name is an error (`none`), and a
record that is too short has no value there (`some none`). -/
def value (names record : List (List Char)) (name : List Char) : Option (Option (List Char)) :=
  (column names name).map fun index => record[index]?

/-- The header and the records under it. Empty lines are no records. -/
def readNamed (text : List Char) : Option (List (List Char) × List (List (List Char))) :=
  (read text).map fun records =>
    match records with
    | [] => ([], [])
    | names :: records => (names, records.filter fun record => record ≠ [])

theorem readNamed_write {names : List (List Char)} {records : List (List (List Char))}
    (plain : ∀ record ∈ names :: records, PlainRecord record) :
    readNamed (write (names :: records)) = some (names, records) := by
  rw [readNamed, read_write plain, Option.map_some]
  refine congrArg some (congrArg (Prod.mk names) (List.filter_eq_self.mpr fun record member => ?_))
  exact decide_eq_true (plain record (List.mem_cons_of_mem _ member)).begins

end QuicMls.Csv
