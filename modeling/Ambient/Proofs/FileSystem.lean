import Ambient.Host
import Ambient.Proofs.Disk

/-!
# Files behind paths

A file is known by itself and not by its paths, so that it does not matter how
many links lead to it, nor where a path starts.  What a run relies on is that
opening and writing touch one file only, that a file is emptied when it is
opened by a path, and that what is open already goes on where it was.
-/

namespace Ambient
namespace FileSystem

variable {State Sink File : Type}

/-- What a file holds after some bytes are written over it from a position on.
Zeros fill the gap if the position lies beyond the end. -/
def overwritten (old : ByteArray) (position : Nat) (bytes : ByteArray) :
    ByteArray :=
  old.extract 0 position ++ ⟨.replicate (position - old.size) 0⟩ ++ bytes ++
    old.extract (position + bytes.size) old.size

theorem overwritten_end (old bytes : ByteArray) :
    overwritten old old.size bytes = old ++ bytes := by
  have hgap : (⟨.replicate (old.size - old.size) 0⟩ : ByteArray) = .empty := by
    rw [Nat.sub_self]
    rfl
  have hrest : old.extract (old.size + bytes.size) old.size = .empty := by
    rw [ByteArray.extract_eq_empty_iff]
    omega
  rw [overwritten, hgap, hrest, ByteArray.extract_zero_size,
    ByteArray.append_empty, ByteArray.append_empty]

theorem overwritten_empty (bytes : ByteArray) :
    overwritten .empty 0 bytes = bytes :=
  (overwritten_end .empty bytes).trans ByteArray.empty_append

/-- How the files of a system are seen: what each of them holds, the file behind
a sink, the position at which a sink writes, and which files hold what is
written at all; a device need not. -/
structure View (State Sink File : Type) where
  content : State -> File -> Option ByteArray
  file : Sink -> File
  position : State -> Sink -> Nat
  ordinary : File -> Prop

/-- What a run relies on.  There is nothing about when a path can be opened. -/
structure Lawful (fs : FileSystem State Sink) (view : View State Sink File) :
    Prop where
  open_other : forall {s s' outlet sink},
    fs.openSink s outlet = .ok (sink, s') ->
      forall file, file ≠ view.file sink ->
        view.content s' file = view.content s file
  open_path : forall {s s' path sink},
    fs.openSink s (.path path) = .ok (sink, s') ->
      view.ordinary (view.file sink) ->
        view.content s' (view.file sink) = some .empty ∧
        view.position s' sink = 0
  open_number : forall {s s' n sink},
    fs.openSink s (.number n) = .ok (sink, s') ->
      view.content s' (view.file sink) = view.content s (view.file sink)
  fill_other : forall {s s' outlet sink},
    fs.openSink s outlet = .ok (sink, s') ->
      forall bytes file, file ≠ view.file sink ->
        view.content (fs.fill sink bytes s') file = view.content s' file
  fill_self : forall {s s' outlet sink},
    fs.openSink s outlet = .ok (sink, s') ->
      forall bytes, view.ordinary (view.file sink) ->
        view.content (fs.fill sink bytes s') (view.file sink) =
          some (overwritten ((view.content s' (view.file sink)).getD .empty)
            (view.position s' sink) bytes)

end FileSystem

/-!
## Hosts
-/

namespace Host

open FileSystem

/-- A file of a host is the place where it stands, and is written at its end. -/
def view : View Host Sink Sink where
  content := content
  file := id
  position host sink := ((host.content sink).getD .empty).size
  ordinary _ := True

variable {host host' : Host} {names : List String}

theorem content_put_file
    (bytes : ByteArray)
    (h : host.disk.node? names ≠ some .directory) :
    (host.put (.file names) bytes).content (.file names) = some bytes := by
  simp only [content, put, Disk.node?_put_self h]

theorem content_put_file_of_ne
    {sink : Sink}
    (bytes : ByteArray)
    (h : host.disk.HasWay names)
    (hne : sink ≠ .file names) :
    (host.put (.file names) bytes).content sink = host.content sink := by
  cases sink with
  | stream n => rfl
  | file other =>
      have hother : other ≠ names := fun heq => hne (by rw [heq])
      simp only [content, put, Disk.node?_put_of_ne h hother]

theorem content_put_stream
    (host : Host)
    (n : Nat)
    (bytes : ByteArray)
    (sink : Sink) :
    (host.put (.stream n) bytes).content sink =
      if sink = .stream n then (host.content sink).map fun _ => bytes
      else host.content sink := by
  cases sink with
  | file names => rfl
  | stream m =>
      simp only [content, put, lookup_replace, Sink.stream.injEq]
      split
      · rename_i heq
        rw [heq]
      · rfl

/-- What opening a sink does: a file at the end of a path is emptied, and an
open stream is left as it is. -/
theorem openSink_cases
    {outlet : Outlet} {sink : Sink}
    (h : fileSystem.openSink host outlet = .ok (sink, host')) :
    (exists path names, outlet = .path path ∧ sink = .file names ∧
      host.disk.Opens path names ∧ host' = host.put (.file names) .empty) ∨
    exists n content, outlet = .number n ∧ sink = .stream n ∧
      host.streams.lookup n = some content ∧ host' = host := by
  cases outlet with
  | path path =>
      obtain ⟨names, htarget, h⟩ := bind_eq_ok h
      cases h
      exact .inl ⟨path, names, rfl, rfl, Disk.target_eq_ok_iff.mp htarget, rfl⟩
  | number n =>
      change (if _ then _ else _) = _ at h
      split at h
      · rename_i hsome
        cases h
        obtain ⟨content, hcontent⟩ := Option.isSome_iff_exists.mp hsome
        exact .inr ⟨n, content, rfl, rfl, hcontent, rfl⟩
      · contradiction

theorem lawful_fileSystem : fileSystem.Lawful view where
  open_other := by
    intro s s' outlet sink h file hne
    rcases openSink_cases h with
      ⟨_, names, _, rfl, hopens, rfl⟩ | ⟨_, _, _, _, _, rfl⟩
    · exact content_put_file_of_ne .empty hopens.hasWay hne
    · rfl
  open_path := by
    intro s s' path sink h _
    rcases openSink_cases h with
      ⟨_, names, _, rfl, hopens, rfl⟩ | ⟨_, _, houtlet, _⟩
    · have hcontent := content_put_file .empty hopens.free
      refine ⟨hcontent, ?_⟩
      show ((content _ (.file names)).getD .empty).size = 0
      rw [hcontent]
      rfl
    · contradiction
  open_number := by
    intro s s' n sink h
    rcases openSink_cases h with
      ⟨_, _, houtlet, _⟩ | ⟨_, _, _, _, _, rfl⟩
    · contradiction
    · rfl
  fill_other := by
    intro s s' outlet sink h bytes file hne
    rcases openSink_cases h with
      ⟨_, names, _, rfl, hopens, rfl⟩ | ⟨n, _, _, rfl, _, rfl⟩
    · exact content_put_file_of_ne _ (hopens.hasWay.put .empty) hne
    · exact (content_put_stream _ n _ file).trans (if_neg hne)
  fill_self := by
    intro s s' outlet sink h bytes _
    have hend := overwritten_end ((s'.content sink).getD .empty) bytes
    show content (fill sink bytes s') sink = _
    refine Eq.trans ?_ (congrArg some hend.symm)
    rcases openSink_cases h with
      ⟨_, names, _, rfl, hopens, rfl⟩ | ⟨n, old, _, rfl, hold, rfl⟩
    · refine content_put_file _ ?_
      show (s.disk.put names .empty).node? names ≠ some .directory
      rw [Disk.node?_put_self hopens.free]
      nofun
    · rw [fill, content_put_stream, if_pos rfl]
      simp only [content, hold, Option.map_some]

end Host
end Ambient
