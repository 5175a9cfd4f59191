import QbCodec.Conversion

namespace QbCodec

inductive Product
  | file (bytes : List UInt8)
  | source (text : String)
  deriving DecidableEq

inductive Job
  | compilation (c : Compilation)
  | decompilation (c : Decompilation)

namespace Job

def abortReason : Job → Option String
  | compilation c => c.abortReason
  | decompilation c => c.abortReason

def failed (j : Job) : Bool := j.abortReason.isSome

def output : Job → Option Product
  | compilation c => c.output.map .file
  | decompilation c => c.output.map .source

def fail (reason : String) : Job → Job
  | compilation c => compilation (c.fail reason)
  | decompilation c => decompilation (c.fail reason)

def run (r : Registry) : Job → Except Failure Product × Job × Registry
  | compilation c =>
    let (result, c, r) := c.run r
    (result.map .file, compilation c, r)
  | decompilation c =>
    let (result, c, r) := c.run r
    (result.map .source, decompilation c, r)

end Job

structure Session where
  registry : Registry
  jobs : List Job

namespace Session

def add (s : Session) (j : Job) : Session := { s with jobs := s.jobs ++ [j] }

def run (s : Session) (n : Nat) : Option (Except Failure Product) × Session :=
  match s.jobs[n]? with
  | none => (none, s)
  | some j =>
    let (result, j, r) := j.run s.registry
    (some result, ⟨r, s.jobs.set n j⟩)

def fail (s : Session) (n : Nat) (reason : String) : Session :=
  { s with jobs := s.jobs.modify n (Job.fail reason) }

end Session

end QbCodec
