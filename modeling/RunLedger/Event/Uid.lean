import RunLedger.Digest.Sha256
import RunLedger.Fault
import RunLedger.Json.Record
import RunLedger.Text.Utf8

/-!
The identity of an event: a hash of what tells one event of the stream from another. A redelivered
event has the same identity. Main statement: the text form reads back.
-/

set_option autoImplicit false

namespace RunLedger.Event

structure Uid where
  octets : Octets 32
  deriving DecidableEq

namespace Uid

/-- The bytes that are hashed: three texts, each closed by a zero byte, and the index in eight
bytes. -/
def identity (topic kind key : String) (index : UInt64) : List UInt8 :=
  [topic, kind, key].flatMap (fun part => Text.Utf8.encode part ++ [0]) ++
    bigEndian index.toNat 8

def derive (topic kind key : String) (index : UInt64) : Uid :=
  ⟨Digest.Sha256.digest (identity topic kind key index)⟩

/-- Sixty-four lower-case digits. -/
def toString (uid : Uid) : String := String.ofList uid.octets.toHex

instance : ToString Uid := ⟨toString⟩

/-- Reads sixty-four digits in either case and nothing else. -/
def parse? (raw : String) : Option Uid := (Octets.ofHex? 32 raw.toList).map mk

/-- Reads an identity, with the text in the error. -/
def parse (raw : String) : Except ReadingError Uid :=
  match parse? raw with
  | some uid => .ok uid
  | none => .error (.eventUid raw)

def toJson (uid : Uid) : Json.Value := .text uid.toString

def read : Json.Reader Uid := Json.Reader.parsed parse?

theorem parse?_toString (uid : Uid) : parse? uid.toString = some uid := by
  simp [parse?, toString, Octets.ofHex?_toHex]

theorem parse_eq_ok {raw : String} {uid : Uid} : parse raw = .ok uid ↔ parse? raw = some uid := by
  rw [parse]
  cases parse? raw <;> simp

theorem parse_toString (uid : Uid) : parse uid.toString = .ok uid :=
  parse_eq_ok.2 uid.parse?_toString

end Uid

end RunLedger.Event
