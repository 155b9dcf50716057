import InferenceSim.Document.Json
import InferenceSim.Request.Basic
import InferenceSim.Text.Blank

/-! Recorded requests: one JSON record per line. Blank lines and lines that begin with
a hash sign are skipped, and the records are numbered in order of arrival. -/
namespace InferenceSim

/-- One recorded request. -/
structure TraceRecord where
  arrivalTime : Nat
  inputTokens : Nat
  outputTokens : Nat
  prefixGroup : Option Nat := none
  prefixTokens : Option Nat := none
  tenant : Option Nat := none
  sloClass : Option SloClass := none
  deriving DecidableEq, Repr, Inhabited

/-- Why there are no recorded requests. -/
inductive TraceError where
  /-- The file cannot be read, or is no text. -/
  | unreadable (reason : String)
  /-- A line holds no record. -/
  | malformed (line : Nat)
  /-- A request has no prompt. -/
  | emptyPrompt (line : Nat)
  deriving DecidableEq, Repr

def TraceError.message : TraceError → String
  | unreadable reason => s!"Failed to read workload: {reason}"
  | malformed line => s!"Failed to parse JSON at line {line}: not a trace record"
  | emptyPrompt line => s!"Invalid trace record at line {line}: prompt_tokens must be > 0"

namespace TraceRecord

def ofRequest (r : Request) : TraceRecord :=
  { arrivalTime := r.arrivalTime
    inputTokens := r.inputTokens
    outputTokens := r.outputTokens
    prefixGroup := r.shared.map (·.group)
    prefixTokens := r.shared.map (·.tokens)
    tenant := if r.tenant = 0 then none else some r.tenant
    sloClass := some r.sloClass }

/-- The request with a number. -/
def toRequest (t : TraceRecord) (id : Nat) : Request :=
  let r : Request :=
    { id
      arrivalTime := t.arrivalTime
      inputTokens := t.inputTokens
      outputTokens := t.outputTokens
      tenant := t.tenant.getD 0
      sloClass := t.sloClass.getD .standard }
  match t.prefixGroup with
  | some group => r.withPrefix group (t.prefixTokens.getD 0)
  | none => r

def member {α : Type} (name : String) (write : α → Document) : Option α → List (String × Document)
  | some a => [(name, write a)]
  | none => []

def toDocument (t : TraceRecord) : Document :=
  .table ([("ts", .count t.arrivalTime), ("prompt_tokens", .count t.inputTokens),
    ("gen_tokens", .count t.outputTokens)] ++
    member "prefix_group" .count t.prefixGroup ++ member "prefix_len" .count t.prefixTokens ++
    member "tenant" .count t.tenant ++ member "slo_class" SloClass.toDocument t.sloClass)

def ofDocument? (d : Document) : Option TraceRecord := do
  let f ← d.fields? ["ts", "prompt_tokens", "gen_tokens", "prefix_group", "prefix_len", "tenant",
    "slo_class"]
  let count (bits : Nat) (name : String) :=
    f.withDefault name (Document.asOption? (Document.asCount? bits)) none
  return {
    arrivalTime := ← f.count 64 "ts"
    inputTokens := ← f.count 32 "prompt_tokens"
    outputTokens := ← f.count 32 "gen_tokens"
    prefixGroup := ← count 64 "prefix_group"
    prefixTokens := ← count 32 "prefix_len"
    tenant := ← count 32 "tenant"
    sloClass := ← f.withDefault "slo_class" (Document.asOption? SloClass.ofDocument?) none }

def line (t : TraceRecord) : String := Json.compact t.toDocument

end TraceRecord

namespace Trace

def isSkipped (cs : List Char) : Bool := cs.isEmpty || cs.head? = some '#'

/-- The record on a trimmed line. -/
def readLine (number : Nat) (cs : List Char) : Except TraceError TraceRecord :=
  match (Json.parse? (String.ofList cs)).bind TraceRecord.ofDocument? with
  | none => .error (.malformed number)
  | some t => if t.inputTokens = 0 then .error (.emptyPrompt number) else .ok t

/-- The records on lines numbered from `number` on; no line stands for one that is no
text. -/
def readLines : (number : Nat) → List (Option (List Char)) → Except TraceError (List TraceRecord)
  | _, [] => .ok []
  | _, none :: _ => .error (.unreadable "stream did not contain valid UTF-8")
  | number, some cs :: rest =>
    let cs := Text.trim cs
    if isSkipped cs then readLines (number + 1) rest
    else do
      let t ← readLine number cs
      let ts ← readLines (number + 1) rest
      return t :: ts

/-- The requests of some records, in order of arrival and numbered in that order. -/
def requests (ts : List TraceRecord) : List Request :=
  (ts.mergeSort fun a b => a.arrivalTime ≤ b.arrivalTime).mapIdx fun id t => t.toRequest id

def linesOf (text : String) : List (Option (List Char)) :=
  (Text.splitAt (· = '\n') text.toList).map some

def linesOfBytes (bytes : ByteArray) : List (Option (List Char)) :=
  (bytes.toList.splitOn 10).map fun line =>
    (String.fromUTF8? (ByteArray.mk line.toArray)).map String.toList

def parse (text : String) : Except TraceError (List Request) :=
  (readLines 1 (linesOf text)).map requests

def parseBytes (bytes : ByteArray) : Except TraceError (List Request) :=
  (readLines 1 (linesOfBytes bytes)).map requests

def write (rs : List Request) : String :=
  String.join (rs.map fun r => (TraceRecord.ofRequest r).line ++ "\n")

end Trace

end InferenceSim
