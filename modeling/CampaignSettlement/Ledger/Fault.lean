/-!
Failures of a ledger's store, divided by whether trying again can help, and the failures of a database
that they come from.
-/
namespace CampaignSettlement.Ledger

inductive Fault
  | unavailable (reason : String)
  | rejected (reason : String)
deriving DecidableEq, Repr

namespace Fault

def isTransient : Fault → Bool
  | unavailable _ => true
  | rejected _ => false

def message : Fault → String
  | unavailable reason => "store unavailable: " ++ reason
  | rejected reason => "store rejected operation: " ++ reason

end Fault

inductive DatabaseFault
  | io (reason : String)
  | tls (reason : String)
  | protocol (reason : String)
  | poolTimedOut
  | poolClosed
  | workerCrashed
  | configuration (reason : String)
  | rowNotFound
  | typeNotFound (name : String)
  | columnNotFound (name : String)
  | columnIndex (index length : Nat)
  | columnDecode (column reason : String)
  | decode (reason : String)
  | statement (state : Option String) (reason : String)
deriving DecidableEq, Repr

namespace DatabaseFault

def message : DatabaseFault → String
  | io r => "error communicating with database: " ++ r
  | tls r => "error occurred while attempting to establish a TLS connection: " ++ r
  | protocol r => "encountered unexpected or invalid data: " ++ r
  | poolTimedOut => "pool timed out while waiting for an open connection"
  | poolClosed => "attempted to acquire a connection on a closed pool"
  | workerCrashed => "attempted to communicate with a crashed background worker"
  | configuration r => "error with configuration: " ++ r
  | rowNotFound => "no rows returned by a query that expected to return at least one row"
  | typeNotFound n => "type named " ++ n ++ " not found"
  | columnNotFound n => "no column found for name: " ++ n
  | columnIndex i n =>
    "column index out of bounds: the len is " ++ toString n ++ ", but the index is " ++ toString i
  | columnDecode c r => "error occurred while decoding column " ++ c ++ ": " ++ r
  | decode r => "error occurred while decoding: " ++ r
  | statement _ r => "error returned from database: " ++ r

/-- Connection states, and the four states of a conflict or a shutdown. -/
def stateIsTransient (state : String) : Bool :=
  "08".isPrefixOf state || ["40001", "40P01", "55P03", "57P01"].contains state

def isTransient : DatabaseFault → Bool
  | io _ | tls _ | protocol _ | poolTimedOut | poolClosed | workerCrashed => true
  | statement (some state) _ => stateIsTransient state
  | _ => false

def toFault (f : DatabaseFault) : Fault :=
  if f.isTransient then .unavailable f.message else .rejected f.message

end DatabaseFault

end CampaignSettlement.Ledger
