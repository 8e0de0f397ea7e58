import RunLedger.Store.Tables

/-!
A database: its committed tables, if they were made, and the transaction that a client has open. A
transaction sees the committed tables up to its first write; from then on it is the only writer
until it ends. Readers outside it see committed tables only.
-/

set_option autoImplicit false

namespace RunLedger.Store

/-- How far a transaction has come. -/
inductive Transaction where
  /-- Begun, without a write. -/
  | begun
  /-- Writing, with its own view of the tables. -/
  | writing (view : Tables)

structure Database where
  /-- None before the tables are made. -/
  committed : Option Tables
  transaction : Option Transaction
  isOpen : Bool

namespace Database

def blank : Database := ⟨none, none, true⟩

def migrated : Database := ⟨some .empty, none, true⟩

/-- A database without tables in which none can be made. -/
def sealed : Database := ⟨none, none, false⟩

/-- The longest time that a client can wait for the lock, in milliseconds. -/
def longestWait : Nat := 0x7FFFFFFF

/-- Refuses a time to wait for the lock that is too long. -/
def requireWait (secs : Nat) : Except Error Unit :=
  if 1000 * secs ≤ longestWait then .ok () else .error (.database .other)

def migrate (db : Database) : Except Error Database :=
  if db.isOpen then .ok { db with committed := some (db.committed.getD .empty) }
  else .error .migration

def tables (db : Database) : Except Error Tables :=
  if db.isOpen then orError (.database .other) db.committed else .error (.database .other)

/-- Whether a transaction keeps other writers out. -/
def isLocked (db : Database) : Bool :=
  match db.transaction with
  | some (.writing _) => true
  | _ => false

/-- The committed tables for a writer outside the transaction. -/
def writable (db : Database) : Except Error Tables := do
  let t ← db.tables
  if db.isLocked then .error (.database .busy) else .ok t

def withTables (db : Database) (t : Tables) : Database := { db with committed := some t }

/-- A write of its own: committed at once, or without effect. -/
def autocommit {α : Type} (db : Database) (write : Tables → Except Error (α × Tables)) :
    Except Error α × Database :=
  match db.writable.bind write with
  | .ok (x, t) => (.ok x, db.withTables t)
  | .error e => (.error e, db)

/-- The tables as the transaction sees them. -/
def view (db : Database) : Except Error Tables :=
  match db.transaction with
  | some (.writing view) => .ok view
  | _ => db.tables

/-- The database after a write of the transaction, which holds the lock from then on. -/
def withView (db : Database) (view : Tables) : Database :=
  { db with transaction := some (.writing view) }

def commit (db : Database) : Database :=
  match db.transaction with
  | some (.writing view) => { db with committed := some view, transaction := none }
  | _ => { db with transaction := none }

def rollback (db : Database) : Database := { db with transaction := none }

end Database

end RunLedger.Store
