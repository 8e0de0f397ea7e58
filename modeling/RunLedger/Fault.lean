/-!
Failures whose wording belongs to the medium in which they happen: a text format, the database, the
network. They enter messages under short names. A text that does not stand for a value of the domain
fails with a message of the ledger's own.
-/

set_option autoImplicit false

namespace RunLedger

/-- What a database can refuse. -/
inductive DatabaseFault where
  | unique
  | foreignKey
  | notNull
  | busy
  /-- A trigger stopped a statement with a message. -/
  | trigger (message : String)
  | configuration
  /-- A stored cell has not the kind that a column promises. -/
  | column
  | other
  deriving DecidableEq, Repr

def DatabaseFault.text : DatabaseFault → String
  | unique => "<sqlx unique>"
  | foreignKey => "<sqlx foreign key>"
  | notNull => "<sqlx not null>"
  | busy => "<sqlx busy>"
  | trigger message => s!"<sqlx trigger: {message}>"
  | configuration => "<sqlx configuration>"
  | column => "<sqlx column>"
  | other => "<sqlx other>"

/-- A failure outside the ledger. -/
inductive Fault where
  | json
  | uuid
  | http
  | migration
  | database (fault : DatabaseFault)
  deriving DecidableEq, Repr

def Fault.text : Fault → String
  | json => "<json>"
  | uuid => "<uuid>"
  | http => "<http>"
  | migration => "<migrate>"
  | database fault => fault.text

/-- Why a text does not stand for a value of the domain. -/
inductive ReadingError where
  | eventUid (raw : String)
  | runStatus (raw : String)
  | allocation (fault : Fault)
  deriving DecidableEq, Repr

def ReadingError.message : ReadingError → String
  | eventUid raw => s!"Invalid event uid: {raw}"
  | runStatus raw => s!"Invalid run status: {raw}"
  | allocation fault => s!"Malformed allocation payload: {fault.text}"

end RunLedger
