/-
Module: SeekZstdSep.Proofs.Store
Purpose: Named files under any run of compressions, appends, truncations, joins and copies are the
  record logs these make, and every reader opened between two calls answers from the log. A call
  that is refused changes no log; one that fails behind its cut loses that of its file and no other.
Trusted boundary: the library, as `Zeekstd` has it
Main exports: StoreCall, Store.step, Logs.step, Store.Holds, Store.Holds.step,
  store_answers_from_logs, same_logs_same_frames
-/
import SeekZstdSep.Proofs.LogEdit

namespace SeekZstdSep

open Lib

variable {Name : Type} [DecidableEq Name] {zeek : Zeekstd} {boundary : Boundary}

/-! ### The files -/

/-- A call on named files, with everything it is given but what these hold. -/
inductive StoreCall (Name : Type) where
  /-- A compression with `is_same`, which is the default: without it the frames hold no uniform
  number of records, and the file has no log. `left` is what one that fails has written by then. -/
  | compress (output : Name) (reader : Input) (frameSize : Nat) (limitMultiplier : Option Nat)
      (opts : Option CompressOptions) (left : Bytes)
  | append (name : Name) (access : Access) (call : AppendCall)
  | truncate (name : Name) (access : Access) (recordLen : Nat)
  | appendFrames (name input : Name) (access inputAccess : Access) (fromIdx : Nat)
      (cnt : Option Nat) (check : RangeCheck)
  | copyRange (input output : Name) (access : Access) (accepts : Bytes → UInt8 → Bool)
      (fromIdx : Nat) (cnt : Option Nat) (check : SeparatorCheck)

/-- The file a call writes to. -/
def StoreCall.target : StoreCall Name → Name
  | compress output _ _ _ _ _ => output
  | append name _ _ => name
  | truncate name _ _ => name
  | appendFrames name _ _ _ _ _ _ => name
  | copyRange _ output _ _ _ _ _ => output

/-- What the files hold, by name. -/
abbrev Store (Name : Type) := Name → Option Bytes

namespace Store

/-- An edit of a file that is there. -/
def edit (store : Store Name) (name : Name) (access : Access)
    (run : File → Except Error Unit × File) : Except Error Unit × Store Name :=
  match store name with
  | none => (.error (.external "no such file"), store)
  | some bytes =>
      let ran := run (access.file bytes)
      (ran.1, Function.update store name (some ran.2.bytes))

theorem edit_of_none {store : Store Name} {name : Name} (h : store name = none) (access : Access)
    (run : File → Except Error Unit × File) :
    store.edit name access run = (.error (.external "no such file"), store) := by
  rw [edit, h]

theorem edit_of_some {store : Store Name} {name : Name} {bytes : Bytes}
    (h : store name = some bytes) (access : Access) (run : File → Except Error Unit × File) :
    store.edit name access run = ((run (access.file bytes)).1,
      Function.update store name (some (run (access.file bytes)).2.bytes)) := by
  rw [edit, h]

/-- A call, and the files it leaves. -/
def step (zeek : Zeekstd) (boundary : Boundary) (store : Store Name) :
    StoreCall Name → Except Error Unit × Store Name
  | .compress output reader frameSize limitMultiplier opts left =>
      match convertRecordsToSeekableZst zeek reader frameSize true boundary.find limitMultiplier
          opts with
      | .error e => (.error e, Function.update store output (some left))
      | .ok bytes => (.ok (), Function.update store output (some bytes))
  | .append name access call =>
      store.edit name access fun f =>
        let ran := call.run zeek f none
        (ran.1.map fun _ => (), ran.2)
  | .truncate name access recordLen =>
      store.edit name access fun f => truncateRecords zeek f recordLen boundary.find
  | .appendFrames name input access inputAccess fromIdx cnt check =>
      match store input with
      | none => (.error (.external "no such file"), store)
      | some bytes =>
          store.edit name access fun f =>
            appendFramesWith zeek f (inputAccess.file bytes) fromIdx cnt boundary.find check
  | .copyRange input output access accepts fromIdx cnt check =>
      match store input with
      | none => (.error (.external "no such file"), store)
      | some bytes =>
          let ran := copyRangeWith zeek (access.file bytes) { accepts := accepts } fromIdx cnt
            boundary.find .required check
          (ran.1, Function.update store output (some ran.2.written))

end Store

/-! ### The logs -/

/-- How a call ends: it did what it is for, or nothing, or it fails behind the point where it
begins to write. -/
inductive Ended where
  | done
  | refused
  | broken
deriving DecidableEq, Repr

/-- The logs the files hold, by name, as far as they hold one. -/
abbrev Logs (Name : Type) := Name → Option (RecordLog UInt8)

/-- What a call does to the logs. -/
def Logs.step (boundary : Boundary) (logs : Logs Name) (call : StoreCall Name) :
    Ended → Logs Name
  | .refused => logs
  | .broken => Function.update logs call.target none
  | .done =>
      Function.update logs call.target <|
        match call with
        | .compress _ reader frameSize _ opts _ =>
            some (compressedLog boundary.find reader.data frameSize opts)
        | .append name _ call =>
            (logs name).map fun log =>
              log.append boundary.find (boundary.separator?.getD []) call.data.data
        | .truncate name _ recordLen => (logs name).map fun log => log.truncate recordLen
        | .appendFrames name input _ _ fromIdx cnt _ =>
            (logs name).bind fun log =>
              (logs input).map fun more => log.join (more.range fromIdx cnt)
        | .copyRange input _ _ _ fromIdx cnt _ =>
            (logs input).map fun log => log.range fromIdx cnt

/-- A call fails behind the point where it begins to write. -/
def StoreCall.FailsLate (zeek : Zeekstd) (boundary : Boundary) (store : Store Name) :
    StoreCall Name → Prop
  | compress _ _ _ _ _ _ => True
  | append name access call =>
      ∃ bytes, store name = some bytes ∧
        RecordsFailLate zeek (access.file bytes) call.data boundary.find boundary.separator?
          call.onMissing call.level call.records call.trust none
  | truncate _ _ _ => False
  | appendFrames name input access inputAccess fromIdx cnt check =>
      ∃ bytes inBytes, store name = some bytes ∧ store input = some inBytes ∧
        FramesFailLate zeek (access.file bytes) (inputAccess.file inBytes) fromIdx cnt
          boundary.find check
  | copyRange input _ _ _ _ _ _ => store input ≠ none

open Classical in
/-- How a call ends. -/
noncomputable def StoreCall.ended (zeek : Zeekstd) (boundary : Boundary) (store : Store Name)
    (call : StoreCall Name) : Ended :=
  match (store.step zeek boundary call).1 with
  | .ok _ => .done
  | .error _ => if call.FailsLate zeek boundary store then .broken else .refused

/-- What a call keeps to. Data ends where a record does, but for the end a separator may be missing
at; an append goes by the boundary and states no other count than the file's; a decoder hands out
a frame in one read; and the groups of a compression fit a frame. -/
def StoreCall.Sound (zeek : Zeekstd) (boundary : Boundary) (store : Store Name)
    (logs : Logs Name) : StoreCall Name → Prop
  | compress _ reader frameSize _ opts _ =>
      boundary.find.records reader.data ≠ [] ∧ boundary.Ends reader.data ∧
        ∀ g ∈ (ruleOf boundary.find true (heldCount (opts.getD {}).maxOfSeparator) frameSize
          reader.data).frames boundary.find reader.data, g.length ≤ zeek.frameLimit
  | append name access call =>
      call.Gives boundary ∧ boundary.Ends call.data.data ∧
        (∀ log, logs name = some log →
          call.records = none ∨ call.records = some log.perFrame) ∧
        ∀ bytes, store name = some bytes → (access.file bytes).Fills zeek
  | truncate _ _ _ => True
  | appendFrames name input _ _ _ _ _ => name ≠ input
  | copyRange input output _ _ _ _ _ => input ≠ output

/-- The files hold the logs. -/
def Store.Holds (zeek : Zeekstd) (boundary : Boundary) (store : Store Name) (logs : Logs Name) :
    Prop :=
  ∀ name log, logs name = some log → ∃ archive : Archive zeek,
    store name = some archive.file.bytes ∧ archive.Counted boundary log.perFrame ∧
      archive.log boundary log.perFrame = log

/-! ### What one call preserves -/

namespace Store.Holds

variable {store : Store Name} {logs : Logs Name} {name : Name}

/-- One file is written, and holds what its log says. -/
theorem update (h : store.Holds zeek boundary logs) {bytes : Bytes}
    {entry : Option (RecordLog UInt8)}
    (hentry : ∀ log, entry = some log → ∃ archive : Archive zeek, bytes = archive.file.bytes ∧
      archive.Counted boundary log.perFrame ∧ archive.log boundary log.perFrame = log) :
    Store.Holds zeek boundary (Function.update store name (some bytes))
      (Function.update logs name entry) := by
  intro name' log hlog
  by_cases hname : name' = name
  · subst hname
    rw [Function.update_self] at hlog ⊢
    obtain ⟨archive, rfl, hholds⟩ := hentry log hlog
    exact ⟨archive, rfl, hholds⟩
  · rw [Function.update_of_ne hname] at hlog ⊢
    exact h name' log hlog

/-- The log of a file may be forgotten. -/
theorem forget (h : store.Holds zeek boundary logs) (name : Name) :
    store.Holds zeek boundary (Function.update logs name none) := by
  intro name' log hlog
  by_cases hname : name' = name
  · subst hname
    rw [Function.update_self] at hlog
    cases hlog
  · rw [Function.update_of_ne hname] at hlog
    exact h name' log hlog

/-- An edit that keeps the file where it is refused, and that does to the log of a file what
`apply` says where it succeeds. -/
theorem edit (h : store.Holds zeek boundary logs) {access : Access}
    {run : File → Except Error Unit × File} {late : Prop}
    {apply : RecordLog UInt8 → Option (RecordLog UInt8)}
    (hkeeps : ∀ bytes, store name = some bytes → ¬ late → ∀ e,
      (run (access.file bytes)).1 = .error e → (run (access.file bytes)).2.bytes = bytes)
    (hdoes : ∀ (archive : Archive zeek) (log log' : RecordLog UInt8),
      store name = some archive.file.bytes → archive.file = access.file archive.file.bytes →
      logs name = some log → archive.Counted boundary log.perFrame →
      archive.log boundary log.perFrame = log → (run archive.file).1 = .ok () →
      apply log = some log' →
      ∃ archive' : Archive zeek, (run archive.file).2 = archive'.file ∧
        archive'.Counted boundary log'.perFrame ∧
        archive'.log boundary log'.perFrame = log') :
    ((store.edit name access run).1 = .ok () →
        (store.edit name access run).2.Holds zeek boundary
          (Function.update logs name ((logs name).bind apply))) ∧
      (∀ e, (store.edit name access run).1 = .error e →
        (¬ late → (store.edit name access run).2 = store) ∧
          (store.edit name access run).2.Holds zeek boundary (Function.update logs name none)) := by
  cases hname : store name with
  | none =>
      rw [Store.edit_of_none hname]
      exact ⟨nofun, fun e _ => ⟨fun _ => rfl, h.forget name⟩⟩
  | some bytes =>
      rw [Store.edit_of_some hname]
      simp only
      refine ⟨fun hok => h.update fun log' hlog' => ?_, fun e herror => ⟨fun hnot => ?_, ?_⟩⟩
      · obtain ⟨log, hlog, happly⟩ := Option.bind_eq_some_iff.mp hlog'
        obtain ⟨before, hbefore, hcounted, hheld⟩ := h name log hlog
        rw [hname, Option.some.injEq] at hbefore
        obtain ⟨now, hnow, hcontents⟩ :=
          Archive.exists_of_bytes (f := access.file bytes) hbefore.symm
        have hbytes : now.file.bytes = bytes := by
          rw [← hnow]
          rfl
        simp only [hnow] at hok ⊢
        obtain ⟨after, hafter, hholds⟩ := hdoes now log log' (by rw [hname, hbytes])
          (by rw [hbytes, hnow]) hlog (hcounted.of_contents hcontents)
          ((Archive.log_congr hcontents).trans hheld) hok happly
        exact ⟨after, by rw [hafter], hholds⟩
      · rw [hkeeps bytes hname hnot e herror, ← hname]
        exact Function.update_eq_self name store
      · exact h.update fun log hlog => by cases hlog

/-- How a call that is an edit of one file ends. -/
theorem of_edit (h : store.Holds zeek boundary logs) {call : StoreCall Name} {access : Access}
    {run : File → Except Error Unit × File}
    {apply : RecordLog UInt8 → Option (RecordLog UInt8)}
    (hstep : store.step zeek boundary call = store.edit call.target access run)
    (hdone : logs.step boundary call .done =
      Function.update logs call.target ((logs call.target).bind apply))
    (hkeeps : ∀ bytes, store call.target = some bytes → ¬ call.FailsLate zeek boundary store →
      ∀ e, (run (access.file bytes)).1 = .error e → (run (access.file bytes)).2.bytes = bytes)
    (hdoes : ∀ (archive : Archive zeek) (log log' : RecordLog UInt8),
      store call.target = some archive.file.bytes →
      archive.file = access.file archive.file.bytes → logs call.target = some log →
      archive.Counted boundary log.perFrame → archive.log boundary log.perFrame = log →
      (run archive.file).1 = .ok () → apply log = some log' →
      ∃ archive' : Archive zeek, (run archive.file).2 = archive'.file ∧
        archive'.Counted boundary log'.perFrame ∧
        archive'.log boundary log'.perFrame = log') :
    (store.step zeek boundary call).2.Holds zeek boundary
      (logs.step boundary call (call.ended zeek boundary store)) := by
  obtain ⟨hok, herror⟩ := h.edit hkeeps hdoes
  rw [StoreCall.ended, hstep]
  cases hran : (store.edit call.target access run).1 with
  | ok u =>
      simp only [hdone]
      exact hok hran
  | error e =>
      obtain ⟨hsame, hforgets⟩ := herror e hran
      by_cases hlate : call.FailsLate zeek boundary store
      · simp only [if_pos hlate]
        exact hforgets
      · simp only [if_neg hlate]
        rw [hsame hlate]
        exact h

/-- An append. -/
theorem append (h : store.Holds zeek boundary logs) (hwhole : boundary.find.Whole)
    {access : Access} {call : AppendCall}
    (hsound : (StoreCall.append name access call).Sound zeek boundary store logs) :
    (store.step zeek boundary (.append name access call)).2.Holds zeek boundary
      (logs.step boundary (.append name access call)
        ((StoreCall.append name access call).ended zeek boundary store)) := by
  obtain ⟨hgives, hends, hcount, hfills⟩ := hsound
  have hstep : store.step zeek boundary (.append name access call) =
      store.edit name access ((LogEdit.append call).run zeek boundary) := rfl
  have hdone : logs.step boundary (.append name access call) .done =
      Function.update logs name ((logs name).bind fun log =>
        some ((LogEdit.append call).apply boundary log)) := by
    simp only [Logs.step, StoreCall.target, LogEdit.apply, Option.map_eq_bind, Function.comp_def]
  refine h.of_edit hstep hdone ?_ ?_
  · intro bytes hname hnot e herror
    have hkept : ¬ (LogEdit.append call).FailsLate zeek boundary (access.file bytes) :=
      fun hlate => hnot ⟨bytes, hname, hlate⟩
    exact LogEdit.keeps hgives hkept herror
  · intro archive log log' hname hopen hlog hcounted hheld hok happly
    cases happly
    have hfull : archive.file.Fills zeek := by
      rw [hopen]
      exact hfills _ hname
    have hfits : (LogEdit.append call).Fits zeek boundary log.perFrame archive.file :=
      ⟨hgives, hends, hcount log hlog, hfull⟩
    have hdoes := LogEdit.does hcounted hwhole hfits hok
    rw [hheld] at hdoes
    rw [LogEdit.perFrame_apply]
    exact hdoes

/-- A truncation. -/
theorem truncate (h : store.Holds zeek boundary logs) (hwhole : boundary.find.Whole)
    {access : Access} {recordLen : Nat} :
    (store.step zeek boundary (.truncate name access recordLen)).2.Holds zeek boundary
      (logs.step boundary (.truncate name access recordLen)
        ((StoreCall.truncate name access recordLen).ended zeek boundary store)) := by
  have hstep : store.step zeek boundary (.truncate name access recordLen) =
      store.edit name access ((LogEdit.truncate recordLen).run zeek boundary) := rfl
  have hdone : logs.step boundary (.truncate name access recordLen) .done =
      Function.update logs name ((logs name).bind fun log =>
        some ((LogEdit.truncate recordLen).apply boundary log)) := by
    simp only [Logs.step, StoreCall.target, LogEdit.apply, Option.map_eq_bind, Function.comp_def]
  refine h.of_edit hstep hdone ?_ ?_
  · intro bytes hname hnot e herror
    have hgives : (LogEdit.truncate recordLen).Gives boundary := trivial
    exact LogEdit.keeps hgives hnot herror
  · intro archive log log' hname hopen hlog hcounted hheld hok happly
    cases happly
    have hfits : (LogEdit.truncate recordLen).Fits zeek boundary log.perFrame archive.file :=
      trivial
    have hdoes := LogEdit.does hcounted hwhole hfits hok
    rw [hheld] at hdoes
    exact hdoes

/-- An append of frames. -/
theorem appendFrames (h : store.Holds zeek boundary logs) (hwhole : boundary.find.Whole)
    {input : Name} {access inputAccess : Access} {fromIdx : Nat} {cnt : Option Nat}
    {check : RangeCheck} :
    (store.step zeek boundary
        (.appendFrames name input access inputAccess fromIdx cnt check)).2.Holds zeek boundary
      (logs.step boundary (.appendFrames name input access inputAccess fromIdx cnt check)
        ((StoreCall.appendFrames name input access inputAccess fromIdx cnt check).ended zeek
          boundary store)) := by
  let call : StoreCall Name := .appendFrames name input access inputAccess fromIdx cnt check
  cases hinput : store input with
  | none =>
      have hstep : store.step zeek boundary call =
          (.error (.external "no such file"), store) := by
        simp only [call, Store.step, hinput]
      have hlate : ¬ call.FailsLate zeek boundary store := by
        rintro ⟨bytes, inBytes, -, hin, -⟩
        rw [hinput] at hin
        cases hin
      change (store.step zeek boundary call).2.Holds zeek boundary
        (logs.step boundary call (call.ended zeek boundary store))
      rw [StoreCall.ended, hstep]
      simp only [if_neg hlate]
      exact h
  | some inBytes =>
      let run (f : File) : Except Error Unit × File :=
        appendFramesWith zeek f (inputAccess.file inBytes) fromIdx cnt boundary.find check
      have hstep : store.step zeek boundary call = store.edit name access run := by
        simp only [call, Store.step, hinput, run]
      have hdone : logs.step boundary call .done =
          Function.update logs name ((logs name).bind fun log =>
            (logs input).map fun more => log.join (more.range fromIdx cnt)) := rfl
      refine h.of_edit hstep hdone ?_ ?_
      · intro bytes hname hnot e herror
        have hnotLate : ¬ FramesFailLate zeek (access.file bytes) (inputAccess.file inBytes)
            fromIdx cnt boundary.find check :=
          fun hlate => hnot ⟨bytes, inBytes, hname, hinput, hlate⟩
        exact congrArg (fun ran => ran.2.bytes) (appendFramesWith_error hnotLate herror)
      · intro archive log log' hname hopen hlog hcounted hheld hok happly
        obtain ⟨more, hmore, rfl⟩ := Option.map_eq_some_iff.mp happly
        obtain ⟨other, hother, hcountedOther, hheldOther⟩ := h input more hmore
        rw [hinput, Option.some.injEq] at hother
        obtain ⟨source, hsource, hcontents⟩ :=
          Archive.exists_of_bytes (f := inputAccess.file inBytes) hother.symm
        have hfits : (LogEdit.appendFrames (inputAccess.file inBytes) more fromIdx cnt
            check).Fits zeek boundary log.perFrame archive.file :=
          ⟨source, hsource, (hcountedOther.of_contents hcontents).uniform,
            (Archive.log_congr hcontents).trans hheldOther⟩
        have hdoes := LogEdit.does hcounted hwhole hfits hok
        rw [hheld] at hdoes
        exact hdoes

/-- A compression. -/
theorem compress (h : store.Holds zeek boundary logs) (hwhole : boundary.find.Whole)
    {reader : Input} {frameSize : Nat} {limitMultiplier : Option Nat}
    {opts : Option CompressOptions} {left : Bytes}
    (hsound : (StoreCall.compress name reader frameSize limitMultiplier opts left).Sound zeek
      boundary store logs) :
    (store.step zeek boundary
        (.compress name reader frameSize limitMultiplier opts left)).2.Holds zeek boundary
      (logs.step boundary (.compress name reader frameSize limitMultiplier opts left)
        ((StoreCall.compress name reader frameSize limitMultiplier opts left).ended zeek boundary
          store)) := by
  obtain ⟨hsome, hends, hfits⟩ := hsound
  rw [StoreCall.ended, Store.step]
  cases hran : convertRecordsToSeekableZst zeek reader frameSize true boundary.find
      limitMultiplier opts with
  | error e =>
      have hlate : (StoreCall.compress name reader frameSize limitMultiplier opts left).FailsLate
          zeek boundary store := trivial
      simp only [if_pos hlate]
      apply h.update
      rintro log ⟨⟩
  | ok bytes =>
      apply h.update
      rintro log ⟨⟩
      exact compress_log hwhole hsome hends hfits hran

/-- A copy of a range. -/
theorem copyRange (h : store.Holds zeek boundary logs) {output : Name} {access : Access}
    {accepts : Bytes → UInt8 → Bool} {fromIdx : Nat} {cnt : Option Nat}
    {check : SeparatorCheck} :
    (store.step zeek boundary
        (.copyRange name output access accepts fromIdx cnt check)).2.Holds zeek boundary
      (logs.step boundary (.copyRange name output access accepts fromIdx cnt check)
        ((StoreCall.copyRange name output access accepts fromIdx cnt check).ended zeek boundary
          store)) := by
  rw [StoreCall.ended, Store.step]
  cases hname : store name with
  | none =>
      have hlate : ¬ (StoreCall.copyRange name output access accepts fromIdx cnt
          check).FailsLate zeek boundary store := fun hlate => hlate hname
      simp only [if_neg hlate]
      exact h
  | some bytes =>
      have hlate : (StoreCall.copyRange name output access accepts fromIdx cnt
          check).FailsLate zeek boundary store := by simp [StoreCall.FailsLate, hname]
      simp only [if_pos hlate]
      cases hran : (copyRangeWith zeek (access.file bytes) { accepts := accepts } fromIdx cnt
          boundary.find .required check).1 with
      | error e => exact h.update fun log hlog => by cases hlog
      | ok u =>
          apply h.update
          intro log' hlog'
          obtain ⟨log, hlog, rfl⟩ := Option.map_eq_some_iff.mp hlog'
          obtain ⟨before, hbefore, hcounted, hheld⟩ := h name log hlog
          rw [hname, Option.some.injEq] at hbefore
          obtain ⟨now, hnow, hcontents⟩ :=
            Archive.exists_of_bytes (f := access.file bytes) hbefore.symm
          rw [hnow] at hran ⊢
          have hempty : ({ accepts := accepts } : Sink).written = [] := rfl
          obtain ⟨copy, hcopy, hcounted', hlog''⟩ :=
            (hcounted.of_contents hcontents).copyRange_log hempty (Prod.ext hran rfl)
          rw [Archive.log_congr hcontents, hheld] at hlog''
          exact ⟨copy, hcopy.symm, hcounted', hlog''⟩

/-- Every call leaves files that hold the logs it leaves. -/
theorem step (h : store.Holds zeek boundary logs) (hwhole : boundary.find.Whole)
    {call : StoreCall Name} (hsound : call.Sound zeek boundary store logs) :
    (store.step zeek boundary call).2.Holds zeek boundary
      (logs.step boundary call (call.ended zeek boundary store)) := by
  cases call with
  | compress output reader frameSize limitMultiplier opts left => exact h.compress hwhole hsound
  | append name access call => exact h.append hwhole hsound
  | truncate name access recordLen => exact h.truncate hwhole
  | appendFrames name input access inputAccess fromIdx cnt check => exact h.appendFrames hwhole
  | copyRange input output access accepts fromIdx cnt check => exact h.copyRange

end Store.Holds

/-! ### Runs -/

/-- The files and the logs after some calls. -/
noncomputable def runCalls (zeek : Zeekstd) (boundary : Boundary) :
    Store Name × Logs Name → List (StoreCall Name) → Store Name × Logs Name
  | state, [] => state
  | state, call :: calls =>
      runCalls zeek boundary ((state.1.step zeek boundary call).2,
        state.2.step boundary call (call.ended zeek boundary state.1)) calls

/-- Every call of a run keeps to what a call has to, where it is made. -/
def SoundRun (zeek : Zeekstd) (boundary : Boundary) :
    Store Name × Logs Name → List (StoreCall Name) → Prop
  | _, [] => True
  | state, call :: calls =>
      call.Sound zeek boundary state.1 state.2 ∧
        SoundRun zeek boundary ((state.1.step zeek boundary call).2,
          state.2.step boundary call (call.ended zeek boundary state.1)) calls

section

variable {state : Store Name × Logs Name} {call : StoreCall Name} {calls : List (StoreCall Name)}

/-- A call that succeeds does to the logs what it is for. -/
theorem runCalls_cons_of_ok (h : (state.1.step zeek boundary call).1 = .ok ()) :
    runCalls zeek boundary state (call :: calls) =
      runCalls zeek boundary
        ((state.1.step zeek boundary call).2, state.2.step boundary call .done) calls := by
  rw [runCalls, StoreCall.ended, h]

theorem soundRun_cons_of_ok (h : (state.1.step zeek boundary call).1 = .ok ())
    (hcall : call.Sound zeek boundary state.1 state.2)
    (hcalls : SoundRun zeek boundary
      ((state.1.step zeek boundary call).2, state.2.step boundary call .done) calls) :
    SoundRun zeek boundary state (call :: calls) := by
  rw [SoundRun, StoreCall.ended, h]
  exact ⟨hcall, hcalls⟩

end

theorem Store.Holds.run {state : Store Name × Logs Name} (hwhole : boundary.find.Whole) :
    ∀ calls : List (StoreCall Name), SoundRun zeek boundary state calls →
      state.1.Holds zeek boundary state.2 →
      (runCalls zeek boundary state calls).1.Holds zeek boundary
        (runCalls zeek boundary state calls).2 := by
  intro calls
  induction calls generalizing state with
  | nil => exact fun _ h => h
  | cons call calls ih =>
      rintro ⟨hcall, hcalls⟩ h
      exact ih hcalls (h.step hwhole hcall)

/-- No file, and no log. -/
def emptyStore : Store Name × Logs Name := (fun _ => none, fun _ => none)

omit [DecidableEq Name] in
theorem emptyStore_holds :
    (emptyStore : Store Name × Logs Name).1.Holds zeek boundary emptyStore.2 := by
  rintro name log ⟨⟩

/-- After any run of calls, a reader that is opened on a file answers with the records of the log
the calls made of it. -/
theorem store_answers_from_logs (hwhole : boundary.find.Whole) (calls : List (StoreCall Name))
    (hsound : SoundRun zeek boundary emptyStore calls) {name : Name} {log : RecordLog UInt8}
    (hlog : (runCalls zeek boundary emptyStore calls).2 name = some log) :
    ∃ bytes, (runCalls zeek boundary emptyStore calls).1 name = some bytes ∧
      (∃ file : SeekableFile, file.Of zeek bytes) ∧
      ∀ file : SeekableFile, file.Of zeek bytes → file.contents.flatten = log.data ∧
        (log.perFrame * log.frames * log.frames < 2 ^ 64 → ∀ label,
          ∃ r, RecordReader.fromReader file label boundary = .ok r ∧
            r.AnswersAs (log.items boundary.tailIsRecord)) := by
  obtain ⟨archive, hbytes, hcounted, hheld⟩ :=
    emptyStore_holds.run hwhole calls hsound name log hlog
  refine ⟨_, hbytes, ⟨_, archive.seekable_of⟩, fun file hfile => ⟨?_, fun hsmall label => ?_⟩⟩
  · rw [hfile.contents_eq, ← hheld, Archive.log, Finder.data_log]
  · have hframes : archive.contents.length = log.frames := congrArg RecordLog.frames hheld
    rw [← hheld]
    apply hcounted.answers _ hfile
    rw [hframes]
    exact hsmall

/-- Five lines, one to a frame. -/
def fiveCompressed : StoreCall Bool :=
  .compress true { data := [97, 10, 98, 10, 99, 10, 100, 10, 101, 10], schedule := some } 3 none
    (some { maxOfSeparator := some 1 }) []

/-- The last two of them, to the other file. -/
def twoCopied : StoreCall Bool :=
  .copyRange true false wholeAccess (fun _ _ => true) 3 none .firstFrame

/-- The other two in front. -/
def threeKept : StoreCall Bool := .truncate true wholeAccess 3

/-- And the copy behind them again. -/
def twoJoined : StoreCall Bool :=
  .appendFrames true false wholeAccess wholeAccess 0 none .firstFrame

/-- The last two lines once more, as records. -/
def twoAdded : StoreCall Bool :=
  .append true wholeAccess
    { data := { data := [100, 10, 101, 10], schedule := fun _ => some 1 }
      separator := [10]
      onMissing := .refuse
      level := 3
      records := some 1
      finder := none
      trust := false }

def fiveLineCalls : List (StoreCall Bool) :=
  [fiveCompressed, twoCopied, threeKept, twoJoined, twoAdded]

/-- The log the calls make: the five lines, and the last two again. -/
def sevenLines : RecordLog UInt8 where
  perFrame := 1
  frames := 7
  records := [[97, 10], [98, 10], [99, 10], [100, 10], [101, 10], [100, 10], [101, 10]]
  rest := []

/-- Every call succeeds and keeps to what it has to. -/
theorem fiveLines_sound :
    SoundRun storedZeekstd lineBoundary emptyStore fiveLineCalls ∧
      (runCalls storedZeekstd lineBoundary emptyStore fiveLineCalls).2 true =
        some sevenLines := by
  have h₁ : (emptyStore.1.step storedZeekstd lineBoundary fiveCompressed).1 = .ok () := by rfl
  let s₁ := (emptyStore.1.step storedZeekstd lineBoundary fiveCompressed).2
  have h₂ : (s₁.step storedZeekstd lineBoundary twoCopied).1 = .ok () := by rfl
  let s₂ := (s₁.step storedZeekstd lineBoundary twoCopied).2
  have h₃ : (s₂.step storedZeekstd lineBoundary threeKept).1 = .ok () := by rfl
  let s₃ := (s₂.step storedZeekstd lineBoundary threeKept).2
  have h₄ : (s₃.step storedZeekstd lineBoundary twoJoined).1 = .ok () := by rfl
  let s₄ := (s₃.step storedZeekstd lineBoundary twoJoined).2
  have h₅ : (s₄.step storedZeekstd lineBoundary twoAdded).1 = .ok () := by rfl
  have hcopied : ∀ store logs, twoCopied.Sound storedZeekstd lineBoundary store logs :=
    fun _ _ => Bool.noConfusion
  have hkept : ∀ store logs, threeKept.Sound storedZeekstd lineBoundary store logs :=
    fun _ _ => trivial
  have hjoined : ∀ store logs, twoJoined.Sound storedZeekstd lineBoundary store logs :=
    fun _ _ => Bool.noConfusion
  have hfills : ∀ bytes, s₄ true = some bytes → (wholeAccess.file bytes).Fills storedZeekstd := by
    have hall : ∀ bytes ∈ s₄ true, ∀ table ∈ (storedZeekstd.fromSeekable bytes).toOption,
        ∀ entry ∈ table, shortRead wholeWish entry.2 = entry.2 := by decide +kernel
    exact fun bytes hread => fills_of_wholeWish (fun _ => rfl) (hall bytes hread)
  constructor
  · apply soundRun_cons_of_ok h₁ ⟨by decide, Or.inl rfl, by decide +kernel⟩
    apply soundRun_cons_of_ok h₂ (hcopied _ _)
    apply soundRun_cons_of_ok h₃ (hkept _ _)
    apply soundRun_cons_of_ok h₄ (hjoined _ _)
    refine soundRun_cons_of_ok h₅ ⟨⟨by decide, rfl⟩, Or.inl rfl, fun log hlog => Or.inr ?_,
      hfills⟩ trivial
    cases hlog
    rfl
  · rw [fiveLineCalls, runCalls_cons_of_ok h₁, runCalls_cons_of_ok h₂, runCalls_cons_of_ok h₃,
      runCalls_cons_of_ok h₄, runCalls_cons_of_ok h₅]
    rfl

theorem store_answers_from_logs_fiveLines :
    ∃ bytes, (runCalls storedZeekstd lineBoundary emptyStore fiveLineCalls).1 true = some bytes ∧
      (∃ file : SeekableFile, file.Of storedZeekstd bytes) ∧
      ∀ file : SeekableFile, file.Of storedZeekstd bytes →
        file.contents.flatten = sevenLines.data ∧
          (sevenLines.perFrame * sevenLines.frames * sevenLines.frames < 2 ^ 64 → ∀ label,
            ∃ r, RecordReader.fromReader file label lineBoundary = .ok r ∧
              r.AnswersAs (sevenLines.items true)) := by
  have hwhole : lineBoundary.find.Whole := separatorFinder_whole [10] (by decide)
  exact store_answers_from_logs hwhole _ fiveLines_sound.1 fiveLines_sound.2

/-- What a file holds frame by frame depends on its log alone: whatever calls led to it, those
that lead to the same log of another file lead to the same frames. -/
theorem same_logs_same_frames {Name' : Type} [DecidableEq Name'] (hwhole : boundary.find.Whole)
    {calls : List (StoreCall Name)} {calls' : List (StoreCall Name')}
    (hsound : SoundRun zeek boundary emptyStore calls)
    (hsound' : SoundRun zeek boundary emptyStore calls') {name : Name} {name' : Name'}
    {log : RecordLog UInt8} (hlog : (runCalls zeek boundary emptyStore calls).2 name = some log)
    (hlog' : (runCalls zeek boundary emptyStore calls').2 name' = some log) :
    ∃ bytes bytes' contents, (runCalls zeek boundary emptyStore calls).1 name = some bytes ∧
      (runCalls zeek boundary emptyStore calls').1 name' = some bytes' ∧
      frameContents zeek bytes = .ok contents ∧ frameContents zeek bytes' = .ok contents := by
  obtain ⟨archive, hbytes, hcounted, hheld⟩ :=
    emptyStore_holds.run hwhole calls hsound name log hlog
  obtain ⟨archive', hbytes', hcounted', hheld'⟩ :=
    emptyStore_holds.run hwhole calls' hsound' name' log hlog'
  have hsame : archive.contents = archive'.contents :=
    Uniform.eq_of_log hcounted.uniform hcounted'.uniform (hheld.trans hheld'.symm)
  refine ⟨_, _, archive.contents, hbytes, hbytes', archive.frameContents_eq, ?_⟩
  rw [hsame]
  exact archive'.frameContents_eq

/-- The seven lines, compressed at once. -/
def sevenCompressed : StoreCall Unit :=
  .compress () { data := sevenLines.data, schedule := some } 3 none
    (some { maxOfSeparator := some 1 }) []

/-- The seven lines compressed at once lie in the frames the calls left them in. -/
theorem same_logs_same_frames_sevenLines :
    ∃ bytes bytes' contents,
      (runCalls storedZeekstd lineBoundary emptyStore fiveLineCalls).1 true = some bytes ∧
      (runCalls storedZeekstd lineBoundary emptyStore [sevenCompressed]).1 () = some bytes' ∧
      frameContents storedZeekstd bytes = .ok contents ∧
      frameContents storedZeekstd bytes' = .ok contents := by
  have hok : (emptyStore.1.step storedZeekstd lineBoundary sevenCompressed).1 = .ok () := by rfl
  have hsound : SoundRun storedZeekstd lineBoundary emptyStore [sevenCompressed] :=
    soundRun_cons_of_ok hok ⟨by decide, Or.inl rfl, by decide +kernel⟩ trivial
  have hlog : (runCalls storedZeekstd lineBoundary emptyStore [sevenCompressed]).2 () =
      some sevenLines := by
    rw [runCalls_cons_of_ok hok]
    rfl
  have hwhole : lineBoundary.find.Whole := separatorFinder_whole [10] (by decide)
  exact same_logs_same_frames hwhole fiveLines_sound.1 hsound fiveLines_sound.2 hlog

end SeekZstdSep
