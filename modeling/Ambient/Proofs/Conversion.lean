import Ambient.Conversion
import Ambient.Proofs.FileSystem
import Ambient.Proofs.Script.Trace
import Ambient.Proofs.Text.Half
import Ambient.Yaml.Document

/-!
# What a conversion leaves in the files

A conversion reads all that it needs before it opens its destination.  So
nothing is written if the dump is missing or if the options or the doclets
cannot be loaded, and the destination may be the file of the dump or of the
options itself.  Once it is open, it takes what the publisher writes, stroke by
stroke, until that ends or fails or comes to what cannot be encoded.  No other
file is touched.
-/

namespace Ambient
namespace Conversion

open CommandLine Emit

/-- What the publisher works on. -/
def jobOf (options : Options.Entries) (doclets : List Doclet) : Job :=
  Job.ofTable (Settings.ofOptions options) (tableOf options doclets)

section

variable {State Sink File : Type} {fs : FileSystem State Sink}
  {yaml : Dump.Loader} {args : ConverterArgs} {s s' : State}
  {options : Options.Entries} {doclets : List Doclet} {outlet : Outlet}
  {sink : Sink}

/-!
## What a conversion reads
-/

theorem run_of_loaded
    (hthere : fs.isThere s args.doclets = .ok true)
    (hoptions : optionsOf fs yaml args s = .ok options)
    (hdoclets : docletsOf fs yaml args s = .ok doclets) :
    run fs yaml args s =
      publishTo fs s options doclets
        [.loaded doclets.length args.doclets] := by
  rw [run, hthere]
  simp only [hoptions, hdoclets]

/-- Without the dump, the options and the doclets the files stay as they are. -/
theorem state_run_of_unread
    (h : fs.isThere s args.doclets ≠ .ok true ∨
      (exists fault, optionsOf fs yaml args s = .error fault) ∨
      exists fault, docletsOf fs yaml args s = .error fault) :
    (run fs yaml args s).state = s := by
  unfold run
  split
  · rfl
  · rfl
  · rename_i hthere
    split
    · rfl
    · rename_i options hoptions
      split
      · rfl
      · rename_i doclets hdoclets
        rcases h with habsent | ⟨fault, hfault⟩ | ⟨fault, hfault⟩
        · contradiction
        · rw [hoptions] at hfault
          contradiction
        · rw [hdoclets] at hfault
          contradiction

/-!
## Where a document goes
-/

/-- The destination of some options is an outlet that can be opened, which gives
a sink and a new state. -/
def Opens (fs : FileSystem State Sink) (s : State) (options : Options.Entries)
    (outlet : Outlet) (sink : Sink) (s' : State) : Prop :=
  outletOf (Value.getD "destination" options) = .ok (some outlet) ∧
    fs.openSink s outlet = .ok (sink, s')

theorem state_publishTo
    (notices : List Notice)
    (h : forall outlet sink s', ¬ Opens fs s options outlet sink s') :
    (publishTo fs s options doclets notices).state = s := by
  cases houtlet : outletOf (Value.getD "destination" options) with
  | error fault => simp only [publishTo, houtlet]
  | ok target =>
      cases target with
      | none => simp only [publishTo, houtlet]
      | some outlet =>
          cases hopen : fs.openSink s outlet with
          | error fault => simp only [publishTo, houtlet, hopen]
          | ok opened =>
              exact absurd ⟨houtlet, hopen⟩ (h outlet opened.1 opened.2)

theorem publishTo_of_opens
    (doclets : List Doclet)
    (notices : List Notice)
    (h : Opens fs s options outlet sink s') :
    (publishTo fs s options doclets notices).state =
        fs.fill sink (Text.encode (documentOf options doclets).encoded.text)
          s' ∧
      (publishTo fs s options doclets notices).ending =
        endingOf (documentOf options doclets).encoded := by
  constructor
  · simp only [publishTo, h.1, h.2]
  · simp only [publishTo, h.1, h.2]

/-- A conversion leaves the files as they are, or opens its destination and
fills it with the document. -/
theorem state_run_cases
    (fs : FileSystem State Sink)
    (yaml : Dump.Loader)
    (args : ConverterArgs)
    (s : State) :
    (run fs yaml args s).state = s ∨
      exists options doclets outlet sink s',
        optionsOf fs yaml args s = .ok options ∧
        docletsOf fs yaml args s = .ok doclets ∧
        Opens fs s options outlet sink s' ∧
        (run fs yaml args s).state =
          fs.fill sink (Text.encode (documentOf options doclets).encoded.text)
            s' := by
  by_cases hthere : fs.isThere s args.doclets = .ok true
  · cases hoptions : optionsOf fs yaml args s with
    | error fault =>
        exact .inl (state_run_of_unread (.inr (.inl ⟨fault, hoptions⟩)))
    | ok options =>
        cases hdoclets : docletsOf fs yaml args s with
        | error fault =>
            exact .inl (state_run_of_unread (.inr (.inr ⟨fault, hdoclets⟩)))
        | ok doclets =>
            rw [run_of_loaded hthere hoptions hdoclets]
            by_cases hopens : exists outlet sink s',
                Opens fs s options outlet sink s'
            · rcases hopens with ⟨outlet, sink, s', hopens⟩
              exact .inr ⟨options, doclets, outlet, sink, s', rfl, rfl, hopens,
                (publishTo_of_opens doclets _ hopens).1⟩
            · refine .inl (state_publishTo _ fun outlet sink s' h => ?_)
              exact hopens ⟨outlet, sink, s', h⟩
  · exact .inl (state_run_of_unread (.inl hthere))

/-!
## The files after a conversion
-/

variable {view : FileSystem.View State Sink File}

theorem content_fill_of_ne
    (laws : fs.Lawful view)
    (hopen : fs.openSink s outlet = .ok (sink, s'))
    (bytes : ByteArray)
    {file : File}
    (hne : file ≠ view.file sink) :
    view.content (fs.fill sink bytes s') file = view.content s file := by
  rw [laws.fill_other hopen bytes file hne, laws.open_other hopen file hne]

theorem content_fill_path
    {path : String}
    (laws : fs.Lawful view)
    (hopen : fs.openSink s (.path path) = .ok (sink, s'))
    (bytes : ByteArray)
    (hordinary : view.ordinary (view.file sink)) :
    view.content (fs.fill sink bytes s') (view.file sink) = some bytes := by
  obtain ⟨hempty, hstart⟩ := laws.open_path hopen hordinary
  rw [laws.fill_self hopen bytes hordinary, hempty, hstart, Option.getD_some,
    FileSystem.overwritten_empty]

theorem content_fill_number
    {n : Nat}
    (laws : fs.Lawful view)
    (hopen : fs.openSink s (.number n) = .ok (sink, s'))
    (bytes : ByteArray)
    (hordinary : view.ordinary (view.file sink)) :
    view.content (fs.fill sink bytes s') (view.file sink) =
      some (FileSystem.overwritten
        ((view.content s (view.file sink)).getD .empty)
        (view.position s' sink) bytes) := by
  rw [laws.fill_self hopen bytes hordinary, laws.open_number hopen]

theorem exists_opens_of_changed
    {file : File}
    (laws : fs.Lawful view)
    (h : view.content (run fs yaml args s).state file ≠ view.content s file) :
    exists options outlet sink s', optionsOf fs yaml args s = .ok options ∧
      Opens fs s options outlet sink s' ∧ file = view.file sink := by
  rcases state_run_cases fs yaml args s with
    hstate | ⟨options, _, outlet, sink, s', hoptions, _, hopens, hstate⟩
  · rw [hstate] at h
    contradiction
  · refine ⟨options, outlet, sink, s', hoptions, hopens, ?_⟩
    by_contra hne
    rw [hstate, content_fill_of_ne laws hopens.2 _ hne] at h
    contradiction

/-- A conversion changes what its destination holds, and no other file.  It
changes nothing if the dump is missing, if the options or the doclets cannot be
loaded, or if there is no destination that can be opened.  Otherwise the
destination, even if it is the file of the dump or of the options, holds the
text of the strokes that the publisher makes for the doclets that were read and
are not hidden: all strokes until it ends or fails, or those before the first
that cannot be encoded.  If the destination is a number, the text is written
where the open file of that number stands. -/
theorem run_changes_destination
    (fs : FileSystem State Sink)
    (view : FileSystem.View State Sink File)
    (laws : fs.Lawful view)
    (yaml : Dump.Loader)
    (args : ConverterArgs)
    (s : State) :
    let result := run fs yaml args s
    (forall file, view.content result.state file ≠ view.content s file ->
      exists options outlet sink s', optionsOf fs yaml args s = .ok options ∧
        Opens fs s options outlet sink s' ∧ file = view.file sink) ∧
    (fs.isThere s args.doclets ≠ .ok true ∨
        (exists fault, optionsOf fs yaml args s = .error fault) ∨
        (exists fault, docletsOf fs yaml args s = .error fault) ->
      result.state = s) ∧
    forall options doclets, fs.isThere s args.doclets = .ok true ->
      optionsOf fs yaml args s = .ok options ->
      docletsOf fs yaml args s = .ok doclets ->
        ((forall outlet sink s', ¬ Opens fs s options outlet sink s') ->
          result.state = s) ∧
        forall outlet sink s', Opens fs s options outlet sink s' ->
          exists strokes text,
            Makes (Document.write (jobOf options doclets)) Session.start
              strokes ∧
            (documentOf options doclets).text =
              (Page.empty.draw strokes).text ∧
            text =
              (Page.empty.draw (strokes.takeWhile Stroke.isWhole)).text ∧
            (view.ordinary (view.file sink) ->
              match outlet with
              | .path _ =>
                  view.content result.state (view.file sink) =
                    some (Text.encode text)
              | .number _ =>
                  view.content result.state (view.file sink) =
                    some (FileSystem.overwritten
                      ((view.content s (view.file sink)).getD .empty)
                      (view.position s' sink) (Text.encode text))) ∧
            (forall plain, text = Text.ofPlain plain ->
              Text.encode text = plain.toUTF8) ∧
            result.ending =
              if strokes.all Stroke.isWhole then
                endingOf (documentOf options doclets)
              else .failed .halfPair := by
  refine ⟨fun _ => exists_opens_of_changed laws, state_run_of_unread, ?_⟩
  intro options doclets hthere hoptions hdoclets
  rw [run_of_loaded hthere hoptions hdoclets]
  refine ⟨state_publishTo _, fun outlet sink s' hopens => ?_⟩
  obtain ⟨hstate, hending⟩ :=
    publishTo_of_opens doclets [.loaded doclets.length args.doclets] hopens
  rcases (Document.traced_write (jobOf options doclets)).exists_makes
    Session.start with ⟨strokes, hstrokes⟩
  have htext : (documentOf options doclets).encoded.text =
      (Page.empty.draw (strokes.takeWhile Stroke.isWhole)).text :=
    Document.text_encoded hstrokes
  rw [htext] at hstate
  refine ⟨strokes, _, hstrokes, Document.text_of_makes hstrokes, rfl, ?_, ?_,
    ?_⟩
  · intro hordinary
    rw [hstate]
    cases outlet with
    | path path => exact content_fill_path laws hopens.2 _ hordinary
    | number n => exact content_fill_number laws hopens.2 _ hordinary
  · intro plain hplain
    rw [hplain, Text.encode_ofPlain]
  · rw [hending, documentOf]
    cases hall : strokes.all Stroke.isWhole with
    | true => rw [Document.encoded_of_whole hstrokes hall, if_pos rfl]
    | false =>
        rw [endingOf, (Document.encoded_of_refused hstrokes hall).2,
          if_neg Bool.false_ne_true]

end

/-- A host with a dump of one member, whose type is no text. -/
def typedHost : Host :=
  Host.ofDisk ⟨[(["x"], .directory),
    (["d"], .file
      "[\x7b\"kind\":\"member\",\"name\":\"a\",\"tsType\":1\x7d]".toUTF8)]⟩

/-- A conversion of the dump into its own file, by another path. -/
def ownArgs : ConverterArgs where
  doclets := "d"
  destination := some (.text "x/../d")
  module := none
  includePrivate := false
  noComments := false
  noTypedefInterfaces := false
  config := none
  query := none
  verbose := false

/-- A conversion of the dump to the open file number one. -/
def numberedArgs : ConverterArgs :=
  { ownArgs with query := some [.text "destination=true"] }

theorem docletsOf_numberedArgs
    {State Sink : Type}
    (fs : FileSystem State Sink)
    (yaml : Dump.Loader)
    (s : State) :
    docletsOf fs yaml numberedArgs s = docletsOf fs yaml ownArgs s :=
  rfl

/-- What the conversions of the dump read. -/
theorem exists_loaded_typedHost :
    Host.fileSystem.isThere typedHost "d" = .ok true ∧
      (exists options,
        optionsOf Host.fileSystem Yaml.load ownArgs typedHost = .ok options ∧
        outletOf (Value.getD "destination" options) =
          .ok (some (.path "x/../d"))) ∧
      (exists options,
        optionsOf Host.fileSystem Yaml.load numberedArgs typedHost =
          .ok options ∧
        outletOf (Value.getD "destination" options) = .ok (some (.number 1))) ∧
      exists doclets,
        docletsOf Host.fileSystem Yaml.load ownArgs typedHost =
          .ok doclets := by
  have hpath : (optionsOf Host.fileSystem Yaml.load ownArgs
      typedHost).toOption.any (fun options =>
        decide (outletOf (Value.getD "destination" options) =
          .ok (some (.path "x/../d")))) = true := by
    decide +kernel
  have hnumber : (optionsOf Host.fileSystem Yaml.load numberedArgs
      typedHost).toOption.any (fun options =>
        decide (outletOf (Value.getD "destination" options) =
          .ok (some (.number 1)))) = true := by
    decide +kernel
  have hdoclets : (docletsOf Host.fileSystem Yaml.load ownArgs
      typedHost).toOption.any (fun _ => true) = true := by
    decide +kernel
  obtain ⟨options, hoptions, hpath⟩ := exists_ok_of_any hpath
  obtain ⟨options', hoptions', hnumber⟩ := exists_ok_of_any hnumber
  obtain ⟨doclets, hdoclets, _⟩ := exists_ok_of_any hdoclets
  exact ⟨rfl, ⟨options, hoptions, of_decide_eq_true hpath⟩,
    ⟨options', hoptions', of_decide_eq_true hnumber⟩, doclets, hdoclets⟩

theorem run_changes_destination_own :
    Host.fileSystem.Lawful Host.view ∧
      Host.fileSystem.isThere typedHost "d" = .ok true ∧
      (exists options doclets strokes text,
        Makes (Document.write (jobOf options doclets)) Session.start strokes ∧
        text = (Page.empty.draw (strokes.takeWhile Stroke.isWhole)).text ∧
        Host.view.content
            (run Host.fileSystem Yaml.load ownArgs typedHost).state
            (Host.view.file (.file ["d"])) =
          some (Text.encode text)) ∧
      Host.fileSystem.read
          (run Host.fileSystem Yaml.load ownArgs typedHost).state "./d" =
        .ok "let a: ".toUTF8 ∧
      (exists options doclets strokes text,
        Makes (Document.write (jobOf options doclets)) Session.start strokes ∧
        text = (Page.empty.draw (strokes.takeWhile Stroke.isWhole)).text ∧
        Host.view.content
            (run Host.fileSystem Yaml.load numberedArgs typedHost).state
            (Host.view.file (.stream 1)) =
          some (FileSystem.overwritten .empty 0 (Text.encode text))) ∧
      Host.fileSystem.isThere (Host.ofDisk ⟨[]⟩) "d" ≠ .ok true ∧
      (run Host.fileSystem Yaml.load ownArgs (Host.ofDisk ⟨[]⟩)).state =
        Host.ofDisk ⟨[]⟩ := by
  have hlaws := Host.lawful_fileSystem
  have htext : (Host.fileSystem.read (run Host.fileSystem Yaml.load ownArgs
      typedHost).state "./d").toOption.any
        (fun content => decide (content = "let a: ".toUTF8)) = true := by
    decide +kernel
  have habsent : Host.fileSystem.isThere (Host.ofDisk ⟨[]⟩) "d" ≠
      .ok true := by
    decide
  obtain ⟨hthere, ⟨options, hoptions, hpath⟩, ⟨options', hoptions', hnumber⟩,
    doclets, hdoclets⟩ := exists_loaded_typedHost
  obtain ⟨content, hread, hcontent⟩ := exists_ok_of_any htext
  have hown := (run_changes_destination Host.fileSystem Host.view hlaws
    Yaml.load ownArgs typedHost).2.2 options doclets hthere hoptions hdoclets
  obtain ⟨strokes, text, hmakes, _, hdrawn, hfile, _⟩ := hown.2 (.path "x/../d")
    (.file ["d"]) (typedHost.put (.file ["d"]) .empty) ⟨hpath, rfl⟩
  have hnumbered := (run_changes_destination Host.fileSystem Host.view hlaws
    Yaml.load numberedArgs typedHost).2.2 options' doclets hthere hoptions'
    ((docletsOf_numberedArgs _ _ _).trans hdoclets)
  obtain ⟨strokes', text', hmakes', _, hdrawn', hstream, _⟩ :=
    hnumbered.2 (.number 1) (.stream 1) typedHost ⟨hnumber, rfl⟩
  have hunread := (run_changes_destination Host.fileSystem Host.view hlaws
    Yaml.load ownArgs (Host.ofDisk ⟨[]⟩)).2.1 (.inl habsent)
  refine ⟨hlaws, hthere,
    ⟨options, doclets, strokes, text, hmakes, hdrawn, hfile trivial⟩, ?_,
    ⟨options', doclets, strokes', text', hmakes', hdrawn', hstream trivial⟩,
    habsent, hunread⟩
  rw [hread, of_decide_eq_true hcontent]

end Conversion
end Ambient
