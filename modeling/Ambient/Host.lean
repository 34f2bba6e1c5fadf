import Ambient.Disk
import Ambient.FileSystem

/-!
# Hosts

A host is a file system in memory: a disk, and streams that are open under a
number, each with what it has been sent.
-/

namespace Ambient

structure Host where
  disk : Disk
  streams : List (Nat × ByteArray)

namespace Host

def ofDisk (disk : Disk) : Host := ⟨disk, [(1, .empty), (2, .empty)]⟩

inductive Sink where
  | file (names : List String)
  | stream (n : Nat)
deriving DecidableEq, Repr

def content (host : Host) : Sink -> Option ByteArray
  | .file names =>
      match host.disk.node? names with
      | some (.file content) => some content
      | _ => none
  | .stream n => host.streams.lookup n

def put (sink : Sink) (content : ByteArray) (host : Host) : Host :=
  match sink with
  | .file names => { host with disk := host.disk.put names content }
  | .stream n =>
      { host with streams := host.streams.map fun entry =>
          if entry.1 == n then (n, content) else entry }

/-- A file that is opened is emptied; a stream goes on after what it has been
sent. -/
def openSink (host : Host) : Outlet -> Except Fault (Sink × Host)
  | .path path => do
      let names ← host.disk.target path
      return (.file names, host.put (.file names) .empty)
  | .number n =>
      if (host.streams.lookup n).isSome then .ok (.stream n, host)
      else .error .noHandle

def fill (sink : Sink) (bytes : ByteArray) (host : Host) : Host :=
  host.put sink ((host.content sink).getD .empty ++ bytes)

def fileSystem : FileSystem Host Sink where
  isThere host := host.disk.isThere
  read host := host.disk.read
  openSink := openSink
  fill := fill

end Host
end Ambient
