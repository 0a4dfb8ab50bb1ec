import MathScript.Files
import MathScript.Proofs.Artifact.Delivery

/-!
# What becomes of a folder

Compiling and opening, from files and into files, in any order and by any compilers.  Each of
the eight actions does one of four tasks, and either gives the product back or writes it into a
file.

* `Task.compute?`: what a task amounts to, on the bytes that it is given or finds.
* `Task.perform_run`, `Task.perform_runInto`: **the two actions of a task, by what it computes**.
* `Folder.contents?_after`: a run of calls changes none but the files that it is to write.
* `folders_are_kept`: **a call that fails leaves the folder alone, and one that succeeds changes
  the one file that it is to write**.
-/

namespace MathScript

/-! ## Actions -/

namespace Folder

variable {α β : Type} {folder : Folder}

/-- Does an action in a folder: how it ends, and the folder it leaves behind. -/
def perform (folder : Folder) (action : FileAction α) : Except FileError α × Folder :=
  action.run.run folder

/-- What the file at the end of a path holds. -/
def at? (folder : Folder) (path : String) : Option Bytes :=
  (folder.locate? path).bind folder.contents?

/-- The text in the file at the end of a path. -/
def text? (folder : Folder) (path : String) : Option String :=
  (folder.at? path).bind fun bs => (Utf8.decode bs).toOption

theorem perform_bind (action : FileAction α) (next : α → FileAction β) :
    folder.perform (action >>= next) = match folder.perform action with
      | (.ok a, left) => left.perform (next a)
      | (.error e, left) => (.error e, left) := by
  simp only [perform, ExceptT.run_bind, StateT.run_bind]
  generalize StateT.run (ExceptT.run action) folder = r
  obtain ⟨_ | _, _⟩ := r <;> rfl

theorem perform_map {action : FileAction α} {r : Except FileError α} {left : Folder}
    (h : folder.perform action = (r, left)) (g : α → β) :
    folder.perform (g <$> action) = (r.map g, left) := by
  rw [map_eq_pure_bind, perform_bind, h]
  cases r <;> rfl

/-! ## Reading and writing -/

theorem perform_read (path : String) (failure : FileError) :
    folder.perform (read path failure) =
      ((folder.at? path).elim (.error failure) .ok, folder) := by
  have hget : folder.perform get = (.ok folder, folder) := rfl
  rw [read, perform_bind, hget]
  dsimp only
  rw [← at?]
  cases folder.at? path <;> rfl

theorem perform_readText (path : String) (failure : FileError) :
    folder.perform (readText path failure) =
      ((folder.text? path).elim (.error failure) .ok, folder) := by
  rw [readText, perform_bind, perform_read, text?]
  cases folder.at? path with
  | none => rfl
  | some bs =>
    dsimp only [Option.elim, Option.bind]
    cases Utf8.decode bs <;> rfl

theorem perform_write (path : String) (bytes : Bytes) :
    folder.perform (write path bytes) = match folder.locate? path with
      | some place => (.ok (), folder.put place bytes)
      | none => (.error (.write path), folder) := by
  have hget : folder.perform get = (.ok folder, folder) := rfl
  rw [write, perform_bind, hget]
  dsimp only
  cases folder.locate? path <;> rfl

@[simp] theorem locate?_put (place : String) (bytes : Bytes) :
    (folder.put place bytes).locate? = folder.locate? := rfl

theorem contents?_put_of_ne {place other : String} (h : other ≠ place) (bytes : Bytes) :
    (folder.put place bytes).contents? other = folder.contents? other :=
  if_neg h

/-- What is put at a place is found by every path that leads there. -/
theorem at?_put {path place : String} (h : folder.locate? path = some place) (bytes : Bytes) :
    (folder.put place bytes).at? path = some bytes := by
  rw [at?, locate?_put, h]
  exact if_pos rfl

end Folder

/-! ## Compiling and opening -/

namespace Compiler

variable (c : Compiler) (folder : Folder)

theorem perform_liftError {α : Type} (wrapped : CompileError → FileError)
    (r : Except CompileError α) :
    folder.perform (liftError wrapped r) = (r.mapError wrapped, folder) := by
  cases r <;> rfl

theorem perform_buildText (source : String) :
    folder.perform (c.buildText source) = ((c.compile source).mapError (.build none), folder) :=
  perform_liftError folder _ _

theorem perform_buildFile (path : String) :
    folder.perform (c.buildFile path) = match folder.text? path with
      | none => (.error (.readSource path), folder)
      | some source => ((c.compile source).mapError (.build (some path)), folder) := by
  rw [buildFile, Folder.perform_bind, Folder.perform_readText]
  cases folder.text? path with
  | none => rfl
  | some source => exact perform_liftError folder _ _

theorem perform_openBytes (artifact : Bytes) (lenient : Bool) :
    folder.perform (c.openBytes artifact lenient) =
      (((c.unpack artifact lenient).mapError (.unpack none)).map Unpacked.executable, folder) := by
  rw [openBytes, Folder.perform_bind, perform_liftError]
  cases c.unpack artifact lenient <;> rfl

theorem perform_openFile (path : String) (lenient : Bool) :
    folder.perform (c.openFile path lenient) = match folder.at? path with
      | none => (.error (.readArtifact path), folder)
      | some artifact => (((c.unpack artifact lenient).mapError (.unpack (some path))).map
          Unpacked.executable, folder) := by
  rw [openFile, Folder.perform_bind, Folder.perform_read]
  cases folder.at? path with
  | none => rfl
  | some artifact =>
    dsimp only [Option.elim]
    rw [Folder.perform_bind, perform_liftError]
    cases c.unpack artifact lenient <;> rfl

end Compiler

/-! ## Tasks -/

/-- What is made by compiling or opening. -/
inductive Product where
  | artifact (bytes : Bytes)
  | executable (e : Executable)
deriving DecidableEq

/-- What is written into a file: of an executable its code alone. -/
def Product.contents : Product → Bytes
  | artifact bytes => bytes
  | executable e => Bytes.ofString e.code

/-- What there is to do with sources and artifacts. -/
inductive Task where
  | buildText (source : String)
  | buildFile (path : String)
  | openBytes (artifact : Bytes) (lenient : Bool)
  | openFile (path : String) (lenient : Bool)
deriving DecidableEq

namespace Task

/-- Does a task and gives its product back. -/
def run (c : Compiler) : Task → FileAction Product
  | buildText source => Product.artifact <$> c.buildText source
  | buildFile path => Product.artifact <$> c.buildFile path
  | openBytes artifact lenient => Product.executable <$> c.openBytes artifact lenient
  | openFile path lenient => Product.executable <$> c.openFile path lenient

/-- Does a task and writes its product into a file. -/
def runInto (c : Compiler) (target : String) : Task → FileAction Unit
  | buildText source => c.buildTextInto source target
  | buildFile path => c.buildFileInto path target
  | openBytes artifact lenient => c.openBytesInto artifact target lenient
  | openFile path lenient => c.openFileInto path target lenient

/-- The product of a task by the operations on bytes, or none if there is no file to read, or
it does not hold text where text is asked for. -/
def compute? (c : Compiler) (folder : Folder) : Task → Option (Except CompileError Product)
  | buildText source => some ((c.compile source).map .artifact)
  | buildFile path => (folder.text? path).map fun source => (c.compile source).map .artifact
  | openBytes artifact lenient =>
    some ((c.unpack artifact lenient).map fun o => .executable o.executable)
  | openFile path lenient => (folder.at? path).map fun artifact =>
    (c.unpack artifact lenient).map fun o => .executable o.executable

/-- How the end of a task is reported.  A compile error is passed on underneath. -/
inductive Reports : Option (Except CompileError Product) → Except FileError Product → Prop where
  | unread {e : FileError} : e.cause? = none → Reports none (.error e)
  | failed {e : FileError} {cause : CompileError} : e.cause? = some cause →
      Reports (some (.error cause)) (.error e)
  | done (product : Product) : Reports (some (.ok product)) (.ok product)

variable {c : Compiler} {folder : Folder}

/-- **Giving the product back leaves the folder alone.** -/
theorem perform_run (c : Compiler) (folder : Folder) (task : Task) :
    ∃ r, folder.perform (task.run c) = (r, folder) ∧ Reports (task.compute? c folder) r := by
  cases task with
  | buildText source =>
    refine ⟨_, Folder.perform_map (c.perform_buildText folder source) _, ?_⟩
    rw [compute?]
    cases c.compile source with
    | error cause => exact .failed rfl
    | ok bytes => exact .done _
  | buildFile path =>
    have hbuild := c.perform_buildFile folder path
    rw [compute?]
    cases htext : folder.text? path with
    | none =>
      rw [htext] at hbuild
      exact ⟨_, Folder.perform_map hbuild _, .unread rfl⟩
    | some source =>
      rw [htext] at hbuild
      refine ⟨_, Folder.perform_map hbuild _, ?_⟩
      rw [Option.map_some]
      cases c.compile source with
      | error cause => exact .failed rfl
      | ok bytes => exact .done _
  | openBytes artifact lenient =>
    refine ⟨_, Folder.perform_map (c.perform_openBytes folder artifact lenient) _, ?_⟩
    rw [compute?]
    cases c.unpack artifact lenient with
    | error cause => exact .failed rfl
    | ok o => exact .done _
  | openFile path lenient =>
    have hopen := c.perform_openFile folder path lenient
    rw [compute?]
    cases hat : folder.at? path with
    | none =>
      rw [hat] at hopen
      exact ⟨_, Folder.perform_map hopen _, .unread rfl⟩
    | some artifact =>
      rw [hat] at hopen
      refine ⟨_, Folder.perform_map hopen _, ?_⟩
      rw [Option.map_some]
      cases c.unpack artifact lenient with
      | error cause => exact .failed rfl
      | ok o => exact .done _

theorem runInto_eq (c : Compiler) (target : String) (task : Task) :
    task.runInto c target = task.run c >>= fun product => Folder.write target product.contents := by
  cases task <;>
  · rw [runInto, run, bind_map_left]
    rfl

/-- **Writing is the last thing that is done**, so what fails before does not come to it. -/
theorem perform_runInto_error {task : Task} {e : FileError}
    (h : folder.perform (task.run c) = (.error e, folder)) (target : String) :
    folder.perform (task.runInto c target) = (.error e, folder) := by
  rw [runInto_eq, Folder.perform_bind, h]

/-- **What is written is what would be given back.** -/
theorem perform_runInto_ok {task : Task} {product : Product}
    (h : folder.perform (task.run c) = (.ok product, folder)) (target : String) :
    folder.perform (task.runInto c target) = match folder.locate? target with
      | some place => (.ok (), folder.put place product.contents)
      | none => (.error (.write target), folder) := by
  rw [runInto_eq, Folder.perform_bind, h]
  exact Folder.perform_write target product.contents

/-- How the two actions of a task treat a folder. -/
structure Spares (c : Compiler) (folder : Folder) (task : Task) : Prop where
  /-- What is given back is the product by the operations on bytes, and the folder stays. -/
  done : ∀ product, task.compute? c folder = some (.ok product) →
    folder.perform (task.run c) = (.ok product, folder)
  /-- A compile error is passed on by both actions, and the folder stays. -/
  failed : ∀ cause, task.compute? c folder = some (.error cause) →
    ∃ e : FileError, e.cause? = some cause ∧ folder.perform (task.run c) = (.error e, folder) ∧
      ∀ target, folder.perform (task.runInto c target) = (.error e, folder)
  /-- So is it with a file that is not there or is no text. -/
  unread : task.compute? c folder = none →
    ∃ e : FileError, e.cause? = none ∧ folder.perform (task.run c) = (.error e, folder) ∧
      ∀ target, folder.perform (task.runInto c target) = (.error e, folder)
  /-- Whatever the reason, a failure leaves the folder alone. -/
  kept : ∀ target e, (folder.perform (task.runInto c target)).1 = .error e →
    (folder.perform (task.runInto c target)).2 = folder
  /-- A product is written wherever the target leads to. -/
  writes : ∀ product target, task.compute? c folder = some (.ok product) →
    (folder.locate? target).isSome → (folder.perform (task.runInto c target)).1 = .ok ()
  /-- Nothing but the target is written, and in it stands what the other action gives back. -/
  written : ∀ target, (folder.perform (task.runInto c target)).1 = .ok () →
    let left := (folder.perform (task.runInto c target)).2
    ∃ product, folder.perform (task.run c) = (.ok product, folder) ∧
      left.at? target = some product.contents ∧ left.locate? = folder.locate? ∧
      ∀ place, folder.locate? target ≠ some place → left.contents? place = folder.contents? place

theorem compute?_eq_of_run {task : Task} {product : Product} {left : Folder}
    (h : folder.perform (task.run c) = (.ok product, left)) :
    task.compute? c folder = some (.ok product) := by
  obtain ⟨r, hrun, hreport⟩ := task.perform_run c folder
  rw [h] at hrun
  cases hrun
  generalize task.compute? c folder = computed at hreport
  cases hreport
  rfl

/-- The end of writing, by the end of giving back. -/
theorem perform_runInto_eq_ok {task : Task} {target : String}
    (h : (folder.perform (task.runInto c target)).1 = .ok ()) :
    ∃ product place, folder.perform (task.run c) = (.ok product, folder) ∧
      folder.locate? target = some place ∧
      folder.perform (task.runInto c target) = (.ok (), folder.put place product.contents) := by
  obtain ⟨r, hrun, -⟩ := task.perform_run c folder
  cases r with
  | error e =>
    rw [perform_runInto_error hrun] at h
    cases h
  | ok product =>
    have hinto := perform_runInto_ok hrun target
    cases hplace : folder.locate? target with
    | none =>
      rw [hplace] at hinto
      rw [hinto] at h
      cases h
    | some place =>
      rw [hplace] at hinto
      exact ⟨product, place, hrun, rfl, hinto⟩

/-- **Both actions of a task spare the folder.** -/
theorem spares (c : Compiler) (folder : Folder) (task : Task) : task.Spares c folder where
  done product h := by
    obtain ⟨r, hrun, hreport⟩ := task.perform_run c folder
    rw [h] at hreport
    cases hreport
    exact hrun
  failed cause h := by
    obtain ⟨r, hrun, hreport⟩ := task.perform_run c folder
    rw [h] at hreport
    cases hreport with
    | failed he => exact ⟨_, he, hrun, perform_runInto_error hrun⟩
  unread h := by
    obtain ⟨r, hrun, hreport⟩ := task.perform_run c folder
    rw [h] at hreport
    cases hreport with
    | unread he => exact ⟨_, he, hrun, perform_runInto_error hrun⟩
  kept target e h := by
    obtain ⟨r, hrun, -⟩ := task.perform_run c folder
    cases r with
    | error e' => rw [perform_runInto_error hrun]
    | ok product =>
      rw [perform_runInto_ok hrun] at h ⊢
      cases hplace : folder.locate? target with
      | none => rfl
      | some place =>
        rw [hplace] at h
        cases h
  writes product target h htarget := by
    obtain ⟨place, hplace⟩ := Option.isSome_iff_exists.mp htarget
    obtain ⟨r, hrun, hreport⟩ := task.perform_run c folder
    rw [h] at hreport
    cases hreport
    rw [perform_runInto_ok hrun, hplace]
  written target h := by
    obtain ⟨product, place, hrun, hplace, hinto⟩ := perform_runInto_eq_ok h
    rw [hinto]
    refine ⟨product, hrun, Folder.at?_put hplace _, Folder.locate?_put _ _, fun other hother => ?_⟩
    refine Folder.contents?_put_of_ne ?_ _
    rintro rfl
    exact hother hplace

end Task

/-! ## Runs of calls -/

/-- One of the eight actions, as it is asked for. -/
inductive Call where
  | giveBack (task : Task)
  | writeInto (task : Task) (target : String)

/-- The file that a call is to write. -/
def Call.target? : Call → Option String
  | giveBack _ => none
  | writeInto _ target => some target

namespace Folder

/-- The folder that a call leaves behind. -/
def step (folder : Folder) (c : Compiler) : Call → Folder
  | .giveBack task => (folder.perform (task.run c)).2
  | .writeInto task target => (folder.perform (task.runInto c target)).2

/-- The folder that some calls leave behind, each made with a compiler of its own. -/
def after (folder : Folder) : List (Compiler × Call) → Folder
  | [] => folder
  | (c, call) :: calls => (folder.step c call).after calls

/-- A call changes none but the file that it is to write, and no way to a file. -/
theorem step_kept (folder : Folder) (c : Compiler) (call : Call) :
    (folder.step c call).locate? = folder.locate? ∧
      ∀ place, (∀ target ∈ call.target?, folder.locate? target ≠ some place) →
        (folder.step c call).contents? place = folder.contents? place := by
  cases call with
  | giveBack task =>
    obtain ⟨r, hrun, -⟩ := task.perform_run c folder
    rw [step, hrun]
    exact ⟨rfl, fun _ _ => rfl⟩
  | writeInto task target =>
    cases hinto : (folder.perform (task.runInto c target)).1 with
    | error e =>
      rw [step, (task.spares c folder).kept target e hinto]
      exact ⟨rfl, fun _ _ => rfl⟩
    | ok _ =>
      obtain ⟨_, -, -, hways, hothers⟩ := (task.spares c folder).written target hinto
      exact ⟨hways, fun place h => hothers place (h target rfl)⟩

/-- **A run of calls changes no way to a file.** -/
theorem locate?_after (folder : Folder) (calls : List (Compiler × Call)) :
    (folder.after calls).locate? = folder.locate? := by
  induction calls generalizing folder with
  | nil => rfl
  | cons first calls ih => rw [after, ih, (folder.step_kept first.1 first.2).1]

/-- **A run of calls changes none but the files that it is to write.** -/
theorem contents?_after (folder : Folder) {calls : List (Compiler × Call)} {place : String}
    (h : ∀ call ∈ calls, ∀ target ∈ call.2.target?, folder.locate? target ≠ some place) :
    (folder.after calls).contents? place = folder.contents? place := by
  induction calls generalizing folder with
  | nil => rfl
  | cons first calls ih =>
    obtain ⟨hfirst, hcalls⟩ := List.forall_mem_cons.mp h
    obtain ⟨hways, hkept⟩ := folder.step_kept first.1 first.2
    rw [← hways] at hcalls
    rw [after, ih _ hcalls, hkept place hfirst]

end Folder

/-! ## There and back -/

namespace Compiler

variable {c : Compiler}

/-- What is packed fits into a payload. -/
theorem delivers_of_pack {p : Program} {a : Bytes} (h : c.pack p = .ok a) :
    Delivers c.key ⟨c.filename, p.code⟩ a := by
  have hfits : (c.executable p).layout.length ≤ Executable.maxPayload := by
    unfold pack at h
    split at h
    · next payload hencode =>
      obtain ⟨rfl, hfits⟩ := Executable.encode_eq_ok.mp hencode
      exact hfits
    · cases h
  rw [pack_eq_ok hfits] at h
  cases h
  exact delivers_signed hfits c.key

/-- What is compiled from a file into a file can be opened there as the program of the source. -/
theorem buildFileInto_eq_ok {folder : Folder} {path middle : String}
    (h : (folder.perform (c.buildFileInto path middle)).1 = .ok ()) :
    ∃ source r a, folder.text? path = some source ∧ parse source = .ok r ∧
      Delivers c.key ⟨c.filename, r.program.code⟩ a ∧
      (folder.perform (c.buildFileInto path middle)).2.at? middle = some a ∧
      (folder.perform (c.buildFileInto path middle)).2.locate? = folder.locate? := by
  obtain ⟨product, hrun, hat, hways, -⟩ := ((Task.buildFile path).spares c folder).written middle h
  obtain ⟨source, htext, hproduct⟩ := Option.map_eq_some_iff.mp (Task.compute?_eq_of_run hrun)
  rw [compile_eq] at hproduct
  cases hparse : parse source with
  | error e =>
    rw [hparse] at hproduct
    cases hproduct
  | ok r =>
    rw [hparse] at hproduct
    dsimp only at hproduct
    cases hpack : c.pack r.program with
    | error e =>
      rw [hpack] at hproduct
      cases hproduct
    | ok a =>
      rw [hpack] at hproduct
      cases hproduct
      exact ⟨source, r, a, htext, hparse, delivers_of_pack hpack, hat, hways⟩

/-- What was packed under the same key is opened into a file as its code. -/
theorem openFileInto_of_delivers (hc : c.provisioned = true) {folder : Folder}
    {middle target : String} {e : Executable} {a : Bytes} (ha : Delivers c.key e a)
    (hat : folder.at? middle = some a) (htarget : (folder.locate? target).isSome) :
    (folder.perform (c.openFileInto middle target false)).1 = .ok () ∧
      (folder.perform (c.openFileInto middle target false)).2.at? target =
        some (Bytes.ofString e.code) := by
  have hspares := (Task.openFile middle false).spares c folder
  have hproduct : (Task.openFile middle false).compute? c folder = some (.ok (.executable e)) := by
    rw [Task.compute?, hat, Option.map_some, ha.sameKey c hc rfl]
    rfl
  have hwrites := hspares.writes _ target hproduct htarget
  obtain ⟨product, hrun, hcontents, -⟩ := hspares.written target hwrites
  rw [hspares.done _ hproduct] at hrun
  cases hrun
  exact ⟨hwrites, hcontents⟩

end Compiler

/-- **Folders are kept.**  Whatever paths lead to and whatever files hold, a run of calls changes
no way to a file and leaves all files alone that it is not to write.  In the folder after the
run, every task spares the folder: it fails as the operation on bytes does and changes nothing,
or changes the one file that it is to write to the very bytes that it would give back.  What a
provisioned compiler compiles from a file into a file, it opens strictly from there into any file
as the code of the program in the source. -/
theorem folders_are_kept (folder : Folder) (calls : List (Compiler × Call)) :
    ((folder.after calls).locate? = folder.locate? ∧
      ∀ place, (∀ call ∈ calls, ∀ target ∈ call.2.target?, folder.locate? target ≠ some place) →
        (folder.after calls).contents? place = folder.contents? place) ∧
    (∀ (c : Compiler) (task : Task), task.Spares c (folder.after calls)) ∧
    ∀ (c : Compiler) (path middle : String), c.provisioned = true →
      ((folder.after calls).perform (c.buildFileInto path middle)).1 = .ok () →
      ∃ source r, (folder.after calls).text? path = some source ∧ parse source = .ok r ∧
        ∀ target, (folder.locate? target).isSome →
          let built := ((folder.after calls).perform (c.buildFileInto path middle)).2
          (built.perform (c.openFileInto middle target false)).1 = .ok () ∧
            (built.perform (c.openFileInto middle target false)).2.at? target =
              some (Bytes.ofString r.program.code) := by
  have hways := folder.locate?_after calls
  refine ⟨⟨hways, fun place h => folder.contents?_after h⟩, fun c task => task.spares c _, ?_⟩
  intro c path middle hc h
  obtain ⟨source, r, a, htext, hparse, hdelivers, hat, hbuilt⟩ := Compiler.buildFileInto_eq_ok h
  refine ⟨source, r, htext, hparse, fun target htarget => ?_⟩
  rw [← hways, ← hbuilt] at htarget
  exact Compiler.openFileInto_of_delivers hc hdelivers hat htarget

/-- Every path is the place of a file.  Behind a call that finds no source, a source is compiled
into a file in another folder, and opened from there into its own file. -/
theorem folders_are_kept_overwritten :
    let c := Compiler.ofKey ⟨List.replicate 32 7, rfl⟩
    let p : Program := ⟨[.print [.number "1"]]⟩
    let folder := (⟨some, fun _ => none⟩ : Folder).put "/src/demo" (Bytes.ofString "PRINT 1;")
    let calls := [(c, Call.writeInto (.buildFile "/src/more") "/src/other")]
    let built := ((folder.after calls).perform (c.buildFileInto "/src/demo" "build/demo")).2
    (built.perform (c.openFileInto "build/demo" "/src/demo" false)).1 = .ok () ∧
      (built.perform (c.openFileInto "build/demo" "/src/demo" false)).2.at? "/src/demo" =
        some (Bytes.ofString p.code) := by
  intro c p folder calls built
  have hparse : parse "PRINT 1;" = .ok ⟨p, NameTable.fresh⟩ := by cbv
  have hfits : (c.executable p).layout.length ≤ Executable.maxPayload := by decide +kernel
  obtain ⟨⟨hways, hframe⟩, hspares, hround⟩ := folders_are_kept folder calls
  have hleads : ∀ path, (folder.after calls).locate? path = some path := congrFun hways
  have hsource : (folder.after calls).contents? "/src/demo" = some (Bytes.ofString "PRINT 1;") :=
    hframe "/src/demo" (by simp [calls, Call.target?, folder])
  have htext : (folder.after calls).text? "/src/demo" = some "PRINT 1;" := by
    rw [Folder.text?, Folder.at?, hleads, Option.bind_some, hsource, Option.bind_some,
      Utf8.decode_eq_ok.mpr rfl]
    rfl
  obtain ⟨a, ha, -⟩ := (compile_then_unpack c).1 _ _ _ hparse hfits
  have hproduct : (Task.buildFile "/src/demo").compute? c (folder.after calls) =
      some (.ok (.artifact a)) := by
    rw [Task.compute?, htext, Option.map_some, ha]
    rfl
  have hbuilt := (hspares c (.buildFile "/src/demo")).writes _ "build/demo" hproduct
    (by rw [hleads]; rfl)
  obtain ⟨source, r, hfound, hr, hopened⟩ := hround c "/src/demo" "build/demo" rfl hbuilt
  rw [htext] at hfound
  cases hfound
  rw [hparse] at hr
  cases hr
  exact hopened "/src/demo" rfl

end MathScript
