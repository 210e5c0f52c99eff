import ComponentTags.Command.Piped
import ComponentTags.Command.Run
import ComponentTags.Proofs.ListTables
import ComponentTags.Proofs.Occurrences

/-!
# When the command `compile` does all or nothing

A run of `compile` is meant to put its result in one place or to leave everything as it was
(`AllOrNothing`). It does so exactly if no error comes that the command does not expect, and what
is printed comes out as it is (`Undisturbed`). What can fail in an expected way stands before the
one thing that is written; the notice about the file that is written does not.

The libraries are a parameter. What is assumed about them has a name (`Platform.Faithful`), and so
has what is assumed about the world where nothing but names and results matters
(`World.InMemory`).
-/

/-- A file that is put in place has its content, and all other files are as they were. -/
theorem ComponentTags.FileSystem.contents?_put (fs : FileSystem) (p q : Path) (content : Content) :
    (fs.put p content).contents? q =
      if fs.resolve q = fs.resolve p then some content else fs.contents? q := by
  have hresolve : (fs.put p content).resolve q = fs.resolve q := rfl
  rw [contents?, hresolve, put, List.lookup_cons, Entries.lookup_filter_ne]
  by_cases h : fs.resolve q = fs.resolve p
  · simp [h]
  · have hne : (fs.resolve q == fs.resolve p) = false := by simpa using h
    rw [hne, if_neg h, if_neg h, contents?]

namespace ComponentTags.Command

variable {lib : Platform} {w : World} {r : CompileRequest} {report : Report} {result : Text}
  {outcome outcome' : Except CompileError Text} {log : List Text} {sought : List Path}

/-! ## What is assumed -/

/-- What is assumed about the libraries. -/
structure Platform.Faithful (lib : Platform) : Prop where
  badParameter : lib.badParameter = 2
  exception : lib.exception = 1
  crash : lib.crash = 1
  /-- At most the control sequences for terminals are kept from the standard output, and these
  begin with an escape. -/
  echo_plain : ∀ text, '\x1b' ∉ text → lib.echo text = .ok text
  /-- Names without brackets do not spoil the markup of the notice. -/
  print_plain : ∀ template output, '[' ∉ template → '[' ∉ output →
    ∃ line, lib.print (noticeOf template output) = .ok line

/-- All files are texts, and whatever is written is taken. -/
structure World.InMemory (w : World) : Prop where
  texts : ∀ file ∈ w.files.files, ∃ t, file.2 = .text t
  input : ∃ t, w.input = .text t
  whole : ∀ p t, w.files.storing p t = .whole

/-! ## What is left behind -/

/-- The template is a text, the configuration is loaded, and with it the template is compiled to the
outcome. -/
def World.Compiles (lib : Platform) (w : World) (r : CompileRequest)
    (outcome : Except CompileError Text) : Prop :=
  ∃ text config, w.content? r.template = some (.text text) ∧
    w.overflow? lib (named? r.config) = none ∧
    Config.load w.files (named? r.config) w.environment = .ok config ∧
    ((Compiler.ofConfig config w.files r.strict).compile r.variants text.lineFeeds).outcome =
      outcome

/-- The template is not there or cannot be read, or the configuration is not loaded. Half of a
surrogate pair, which no text can have, is no reason. -/
def World.Unreadable (w : World) (r : CompileRequest) : Prop :=
  w.content? r.template = none ∨
    (∃ complaint, w.content? r.template = some (.unreadable complaint)) ∨
    ∃ e, Config.load w.files (named? r.config) w.environment = .error e ∧ e ≠ .json .halfPair

/-- What a run of `compile` should leave behind: the result in one place, or nothing. -/
inductive AllOrNothing (lib : Platform) (w : World) (r : CompileRequest) (report : Report) : Prop
  /-- The result is in the file that is named, and all else is as it was. -/
  | written (result name : Text) (hcompiles : w.Compiles lib r (.ok result))
      (houtput : r.output = some name) (hname : name ≠ [])
      (hstatus : report.status lib = 0) (hstdout : report.stdout = [])
      (hfiles : ∀ p, (report.files w).contents? p =
        if w.files.resolve p = w.files.resolve (Path.ofText name) then some (.text result)
        else w.files.contents? p)
  | printed (result : Text) (hcompiles : w.Compiles lib r (.ok result))
      (houtput : r.output = none ∨ r.output = some [])
      (hstatus : report.status lib = 0) (hstdout : report.stdout = result)
      (hfiles : report.files w = w.files)
  | unreadable (hunreadable : w.Unreadable r) (hstatus : report.status lib = 2)
      (hstdout : report.stdout = []) (hfiles : report.files w = w.files)
  | refused (e : CompileError) (hcompiles : w.Compiles lib r (.error e))
      (hstatus : report.status lib = 1) (hstdout : report.stdout = [])
      (hfiles : report.files w = w.files)

/-- No error comes that the command does not expect, and what is printed comes out as it is. -/
structure Undisturbed (lib : Platform) (w : World) (r : CompileRequest) : Prop where
  decodable : ∀ complaint, w.content? r.template ≠ some (.undecodable complaint)
  /-- The configuration, which is read if the template is, is not nested too deeply. -/
  shallow : ∀ text, w.content? r.template = some (.text text) →
    w.overflow? lib (named? r.config) = none
  stored : ∀ result name, w.Compiles lib r (.ok result) → r.output = some name → name ≠ [] →
    w.files.write (Path.ofText name) result = .whole ∧
      ∃ line, lib.print (noticeOf r.template name) = .ok line
  echoed : ∀ result, w.Compiles lib r (.ok result) → r.output = none ∨ r.output = some [] →
    lib.echo result = .ok result

/-! ## The parts of a run -/

theorem named?_eq_some_iff {option : Option Text} {name : Text} :
    named? option = some name ↔ option = some name ∧ name ≠ [] := by
  unfold named?
  split
  · next c cs =>
    simp only [Option.some.injEq, iff_self_and]
    rintro rfl
    exact List.cons_ne_nil c cs
  · next hcons =>
    refine iff_of_false nofun ?_
    rintro ⟨rfl, hne⟩
    obtain ⟨c, cs, rfl⟩ := List.exists_cons_of_ne_nil hne
    exact hcons c cs rfl

theorem named?_eq_none_iff {option : Option Text} :
    named? option = none ↔ option = none ∨ option = some [] := by
  rcases option with _ | _ | ⟨c, cs⟩ <;> simp [named?]

theorem template_eq_error {failure : Failure} (h : w.template r.template = .error failure) :
    (∃ complaint, w.content? r.template = some (.undecodable complaint) ∧
        failure = .crash complaint) ∨
      (w.content? r.template = none ∨
        ∃ complaint, w.content? r.template = some (.unreadable complaint)) ∧
        ∃ e, failure = .template e := by
  unfold World.template at h
  rcases hcontent : w.content? r.template with _ | content
  · rw [hcontent] at h
    exact .inr ⟨.inl rfl, _, (Except.error.inj h).symm⟩
  · rw [hcontent] at h
    cases content with
    | text t => cases h
    | unreadable complaint =>
      exact .inr ⟨.inr ⟨complaint, rfl⟩, _, (Except.error.inj h).symm⟩
    | undecodable complaint =>
      exact .inl ⟨complaint, rfl, (Except.error.inj h).symm⟩

theorem config_eq_error {failure : Failure} {named : Option Text}
    (h : w.config lib named = .error failure) :
    (∃ complaint, w.overflow? lib named = some complaint ∧ failure = .crash complaint) ∨
      w.overflow? lib named = none ∧
        ∃ e, Config.load w.files named w.environment = .error e ∧ failure = .config e := by
  unfold World.config at h
  split at h
  · next complaint hover => exact .inl ⟨complaint, hover, (Except.error.inj h).symm⟩
  · next hover =>
    split at h
    · cases h
    · next e he => exact .inr ⟨hover, e, he, (Except.error.inj h).symm⟩

theorem template_eq_ok_iff {source : Text} : w.template r.template = .ok source ↔
    ∃ text, w.content? r.template = some (.text text) ∧ text.lineFeeds = source := by
  unfold World.template
  rcases w.content? r.template with _ | text | complaint | complaint <;> simp [Content.read]

theorem config_eq_ok_iff {named : Option Text} {config : Config} :
    w.config lib named = .ok config ↔ w.overflow? lib named = none ∧
      Config.load w.files named w.environment = .ok config := by
  unfold World.config
  rcases w.overflow? lib named with _ | complaint
  · rcases Config.load w.files named w.environment with e | config' <;> simp
  · simp

theorem compiles_iff : w.Compiles lib r outcome ↔
    ∃ source config, w.template r.template = .ok source ∧
      w.config lib (named? r.config) = .ok config ∧
      ((Compiler.ofConfig config w.files r.strict).compile r.variants source).outcome =
        outcome := by
  simp only [World.Compiles, template_eq_ok_iff, config_eq_ok_iff]
  constructor
  · rintro ⟨text, config, htext, hover, hload, houtcome⟩
    exact ⟨_, config, ⟨text, htext, rfl⟩, ⟨hover, hload⟩, houtcome⟩
  · rintro ⟨_, config, ⟨text, htext, rfl⟩, ⟨hover, hload⟩, houtcome⟩
    exact ⟨text, config, htext, hover, hload, houtcome⟩

theorem World.Compiles.unique (h : w.Compiles lib r outcome) (h' : w.Compiles lib r outcome') :
    outcome = outcome' := by
  obtain ⟨source, config, hsource, hconfig, rfl⟩ := compiles_iff.1 h
  obtain ⟨source', config', hsource', hconfig', rfl⟩ := compiles_iff.1 h'
  obtain rfl := Except.ok.inj (hsource.symm.trans hsource')
  obtain rfl := Except.ok.inj (hconfig.symm.trans hconfig')
  rfl

theorem World.Compiles.not_error (h : w.Compiles lib r (.ok result)) (e : CompileError) :
    ¬ w.Compiles lib r (.error e) :=
  fun he => nomatch h.unique he

theorem runCompile_of_compiles (h : w.Compiles lib r (.ok result)) :
    ∃ log sought, runCompile lib w r = deliver lib w r result log sought := by
  obtain ⟨source, config, hsource, hconfig, houtcome⟩ := compiles_iff.1 h
  simp only [runCompile, hsource, hconfig, houtcome]
  exact ⟨_, _, rfl⟩

/-- What a run of `compile` comes to. -/
theorem runCompile_cases (lib : Platform) (w : World) (r : CompileRequest) :
    (∃ failure, w.template r.template = .error failure ∧
      runCompile lib w r = { output := .error failure }) ∨
    (∃ source failure, w.template r.template = .ok source ∧
      w.config lib (named? r.config) = .error failure ∧
      runCompile lib w r = { output := .error failure }) ∨
    (∃ e log sought, w.Compiles lib r (.error e) ∧
      runCompile lib w r = { output := .error (.compile e), log, sought }) ∨
    ∃ result log sought, w.Compiles lib r (.ok result) ∧
      runCompile lib w r = deliver lib w r result log sought := by
  rcases hsource : w.template r.template with failure | source
  · exact .inl ⟨failure, rfl, by simp only [runCompile, hsource]⟩
  rcases hconfig : w.config lib (named? r.config) with failure | config
  · exact .inr (.inl ⟨source, failure, rfl, rfl, by simp only [runCompile, hsource, hconfig]⟩)
  rcases houtcome : ((Compiler.ofConfig config w.files r.strict).compile r.variants
    source).outcome with e | result
  · obtain ⟨log, sought, hrun⟩ : ∃ log sought,
        runCompile lib w r = { output := .error (.compile e), log, sought } := by
      simp only [runCompile, hsource, hconfig, houtcome]
      exact ⟨_, _, rfl⟩
    have hcompiles : w.Compiles lib r (.error e) :=
      compiles_iff.2 ⟨source, config, hsource, hconfig, houtcome⟩
    exact .inr (.inr (.inl ⟨e, log, sought, hcompiles, hrun⟩))
  · have hcompiles : w.Compiles lib r (.ok result) :=
      compiles_iff.2 ⟨source, config, hsource, hconfig, houtcome⟩
    obtain ⟨log, sought, hrun⟩ := runCompile_of_compiles hcompiles
    exact .inr (.inr (.inr ⟨result, log, sought, hcompiles, hrun⟩))

/-! ## A run without a crash -/

theorem allOrNothing_deliver (h : Undisturbed lib w r) (hcompiles : w.Compiles lib r (.ok result)) :
    AllOrNothing lib w r (deliver lib w r result log sought) := by
  unfold deliver
  split
  · next hnone =>
    have houtput := named?_eq_none_iff.1 hnone
    have hecho := h.echoed result hcompiles houtput
    have hprinted : printed lib result = .ok result := by rw [printed, hecho]; rfl
    rw [hprinted]
    exact .printed result hcompiles houtput rfl rfl rfl
  · next name hname =>
    obtain ⟨houtput, hne⟩ := named?_eq_some_iff.1 hname
    obtain ⟨hwhole, line, hline⟩ := h.stored result name hcompiles houtput hne
    simp only [hwhole, hline]
    exact .written result name hcompiles houtput hne rfl rfl fun p =>
      w.files.contents?_put (Path.ofText name) p (.text result)

/-- What fails in an expected way fails before anything is written. -/
theorem allOrNothing_of_undisturbed (hlib : lib.Faithful)
    (hpairs : Config.load w.files (named? r.config) w.environment ≠ .error (.json .halfPair))
    (h : Undisturbed lib w r) : AllOrNothing lib w r (runCompile lib w r) := by
  rcases runCompile_cases lib w r with ⟨failure, hsource, hrun⟩ |
    ⟨source, failure, hsource, hconfig, hrun⟩ | ⟨e, log, sought, hcompiles, hrun⟩ |
    ⟨result, log, sought, hcompiles, hrun⟩
  · rw [hrun]
    rcases template_eq_error hsource with ⟨complaint, hcontent, -⟩ | ⟨hcontent, e, rfl⟩
    · exact absurd hcontent (h.decodable complaint)
    · have hunreadable : w.Unreadable r := hcontent.imp_right .inl
      exact .unreadable hunreadable hlib.badParameter rfl rfl
  · rw [hrun]
    rcases config_eq_error hconfig with ⟨complaint, hover, -⟩ | ⟨-, e, hload, rfl⟩
    · obtain ⟨text, htext, -⟩ := template_eq_ok_iff.1 hsource
      simp [h.shallow text htext] at hover
    · have hunreadable : w.Unreadable r :=
        .inr (.inr ⟨e, hload, fun he => hpairs (he ▸ hload)⟩)
      exact .unreadable hunreadable hlib.badParameter rfl rfl
  · rw [hrun]
    exact .refused e hcompiles hlib.exception rfl rfl
  · rw [hrun]
    exact allOrNothing_deliver h hcompiles

/-! ## Crashes -/

/-- A run that crashes is not all or nothing: its status is that of a template that is not
compiled, but there is no error to report. -/
theorem not_allOrNothing_of_crash (hlib : lib.Faithful) {complaint : Text}
    (hcrash : report.output = .error (.crash complaint))
    (hcompiles : ∀ e, ¬ w.Compiles lib r (.error e)) : ¬ AllOrNothing lib w r report := by
  have hstatus : report.status lib = 1 := by rw [Report.status, hcrash]; exact hlib.crash
  intro h
  cases h with
  | written _ _ _ _ _ hzero => omega
  | printed _ _ _ hzero => omega
  | unreadable _ htwo => omega
  | refused e herror => exact hcompiles e herror

section Conversely

variable (hlib : lib.Faithful) (h : AllOrNothing lib w r (runCompile lib w r))

include hlib h

theorem decodable_of_allOrNothing (complaint : Text) :
    w.content? r.template ≠ some (.undecodable complaint) := by
  intro hcontent
  have hsource : w.template r.template = .error (.crash complaint) := by
    rw [World.template, hcontent]
    rfl
  have hcrash : (runCompile lib w r).output = .error (.crash complaint) := by
    simp only [runCompile, hsource]
  refine not_allOrNothing_of_crash hlib hcrash ?_ h
  rintro e ⟨text, config, htext, -⟩
  rw [hcontent] at htext
  cases htext

theorem shallow_of_allOrNothing {text : Text} (htext : w.content? r.template = some (.text text)) :
    w.overflow? lib (named? r.config) = none := by
  have hsource := template_eq_ok_iff.2 ⟨text, htext, rfl⟩
  by_contra hne
  obtain ⟨complaint, hover⟩ := Option.ne_none_iff_exists'.1 hne
  have hconfig : w.config lib (named? r.config) = .error (.crash complaint) := by
    simp only [World.config, hover]
  have hcrash : (runCompile lib w r).output = .error (.crash complaint) := by
    simp only [runCompile, hsource, hconfig]
  refine not_allOrNothing_of_crash hlib hcrash ?_ h
  rintro e ⟨text, config, -, hnone, -⟩
  exact hne hnone

theorem stored_of_allOrNothing {name : Text} (hcompiles : w.Compiles lib r (.ok result))
    (houtput : r.output = some name) (hne : name ≠ []) :
    w.files.write (Path.ofText name) result = .whole ∧
      ∃ line, lib.print (noticeOf r.template name) = .ok line := by
  obtain ⟨log, sought, hrun⟩ := runCompile_of_compiles hcompiles
  have hname := named?_eq_some_iff.2 ⟨houtput, hne⟩
  rw [hrun] at h
  simp only [deliver, hname] at h
  rcases hwrite : w.files.write (Path.ofText name) result with _ | complaint | ⟨left, complaint⟩
  · refine ⟨rfl, ?_⟩
    rcases hprint : lib.print (noticeOf r.template name) with complaint | line
    · simp only [hwrite, hprint] at h
      exact absurd h (not_allOrNothing_of_crash hlib rfl hcompiles.not_error)
    · exact ⟨line, rfl⟩
  · simp only [hwrite] at h
    exact absurd h (not_allOrNothing_of_crash hlib rfl hcompiles.not_error)
  · simp only [hwrite] at h
    exact absurd h (not_allOrNothing_of_crash hlib rfl hcompiles.not_error)

theorem echoed_of_allOrNothing (hcompiles : w.Compiles lib r (.ok result))
    (houtput : r.output = none ∨ r.output = some []) : lib.echo result = .ok result := by
  obtain ⟨log, sought, hrun⟩ := runCompile_of_compiles hcompiles
  have hnone := named?_eq_none_iff.2 houtput
  rw [hrun] at h
  simp only [deliver, hnone, printed] at h
  rcases hecho : lib.echo result with complaint | shown
  · rw [hecho] at h
    exact absurd h (not_allOrNothing_of_crash hlib rfl hcompiles.not_error)
  · rw [hecho] at h
    cases h with
    | written _ name _ hsome hne =>
      rw [hsome] at houtput
      simp [hne] at houtput
    | printed result' hcompiles' _ _ hstdout =>
      have hshown : shown = result' := hstdout
      obtain rfl := Except.ok.inj (hcompiles.unique hcompiles')
      rw [hshown]
    | unreadable _ hstatus =>
      have hzero : (0 : Nat) = 2 := hstatus
      cases hzero
    | refused e he => exact absurd he (hcompiles.not_error e)

theorem undisturbed_of_allOrNothing : Undisturbed lib w r where
  decodable := decodable_of_allOrNothing hlib h
  shallow _ := shallow_of_allOrNothing hlib h
  stored _ _ := stored_of_allOrNothing hlib h
  echoed _ := echoed_of_allOrNothing hlib h

end Conversely

/-! ## Every run -/

theorem runCompile_one_place (lib : Platform) (w : World) (r : CompileRequest) :
    ((runCompile lib w r).stdout = [] ∨ (runCompile lib w r).files w = w.files) ∧
      ∀ p, (∀ name ∈ r.output, w.files.resolve p ≠ w.files.resolve (Path.ofText name)) →
        ((runCompile lib w r).files w).contents? p = w.files.contents? p := by
  rcases runCompile_cases lib w r with ⟨failure, -, hrun⟩ | ⟨source, failure, -, -, hrun⟩ |
    ⟨e, log, sought, -, hrun⟩ | ⟨result, log, sought, -, hrun⟩
  · rw [hrun]
    exact ⟨.inl rfl, fun p _ => rfl⟩
  · rw [hrun]
    exact ⟨.inl rfl, fun p _ => rfl⟩
  · rw [hrun]
    exact ⟨.inl rfl, fun p _ => rfl⟩
  · rw [hrun]
    unfold deliver
    split
    · exact ⟨.inr rfl, fun p _ => rfl⟩
    · next name hname =>
      obtain ⟨houtput, -⟩ := named?_eq_some_iff.1 hname
      have hput : ∀ content p,
          (∀ name ∈ r.output, w.files.resolve p ≠ w.files.resolve (Path.ofText name)) →
            (w.files.put (Path.ofText name) content).contents? p = w.files.contents? p :=
        fun content p hp => by rw [FileSystem.contents?_put, if_neg (hp name houtput)]
      dsimp only
      split
      · exact ⟨.inl rfl, fun p _ => rfl⟩
      · exact ⟨.inl rfl, hput _⟩
      · split
        · exact ⟨.inl rfl, hput _⟩
        · exact ⟨.inl rfl, hput _⟩

theorem World.InMemory.exists_text (h : w.InMemory) {name : Text} {content : Content}
    (hcontent : w.content? name = some content) : ∃ t, content = .text t := by
  unfold World.content? at hcontent
  split at hcontent
  · obtain ⟨t, ht⟩ := h.input
    exact ⟨t, (Option.some.inj hcontent).symm.trans ht⟩
  · obtain ⟨before, after, hfiles, -⟩ := List.lookup_eq_some_iff.1 hcontent
    exact h.texts (w.files.resolve (Path.ofText name), content) (by rw [hfiles]; simp)

theorem World.overflow?_eq_none (h : ∀ text, lib.overflow? text = none) (named : Option Text) :
    w.overflow? lib named = none := by
  unfold World.overflow?
  rw [Option.bind_eq_none_iff]
  intro path _
  split
  · exact h _
  · rfl

/-- In memory only the names and the result can disturb a run. -/
theorem undisturbed_of_inMemory (hlib : lib.Faithful) (hmemory : w.InMemory)
    (hshallow : ∀ text, lib.overflow? text = none) (htemplate : '[' ∉ r.template)
    (houtput : ∀ name ∈ r.output, '[' ∉ name)
    (hresult : ∀ result, w.Compiles lib r (.ok result) → '\x1b' ∉ result) :
    Undisturbed lib w r := by
  refine ⟨fun complaint hcontent => ?_, fun _ _ => World.overflow?_eq_none hshallow _,
    fun result name _ hname _ => ?_, fun result hcompiles _ => ?_⟩
  · obtain ⟨t, ht⟩ := hmemory.exists_text hcontent
    cases ht
  · exact ⟨hmemory.whole _ _, hlib.print_plain _ _ htemplate (houtput name hname)⟩
  · exact hlib.echo_plain result (hresult result hcompiles)

/-- **All or nothing.** Let a command line be one for `compile`. Its run puts the result of
compiling the template with the configuration in the file that it names, or on the standard output
if it names none, and changes no other file, or it fails with the status for what it could not
read or the one for what could not be compiled and leaves everything as it was, exactly if nothing
disturbs it: an encoding, the nesting of the configuration, a write that fails, a notice that
cannot be printed after the write, or a result that does not come out as it is. In memory, and if
JSON is read whatever its nesting is, names without brackets and results without escapes are
undisturbed. Every run leaves all files alone but the one that is named, and that one if something
is on the standard output. -/
theorem run_compile_allOrNothing_iff (lib : Platform) (hlib : lib.Faithful) (w : World)
    (words : List Text) (r : CompileRequest) (hread : lib.read words = .ok (.compile r))
    (hpairs : Config.load w.files (named? r.config) w.environment ≠ .error (.json .halfPair)) :
    (AllOrNothing lib w r (runWords lib w words) ↔ Undisturbed lib w r) ∧
    (w.InMemory → (∀ text, lib.overflow? text = none) → '[' ∉ r.template →
      (∀ name ∈ r.output, '[' ∉ name) →
      (∀ result, w.Compiles lib r (.ok result) → '\x1b' ∉ result) →
      AllOrNothing lib w r (runWords lib w words)) ∧
    ((runWords lib w words).stdout = [] ∨ (runWords lib w words).files w = w.files) ∧
    ∀ p, (∀ name ∈ r.output, w.files.resolve p ≠ w.files.resolve (Path.ofText name)) →
      ((runWords lib w words).files w).contents? p = w.files.contents? p := by
  have hrun : runWords lib w words = runCompile lib w r := by simp only [runWords, hread, run]
  rw [hrun]
  refine ⟨⟨undisturbed_of_allOrNothing hlib, allOrNothing_of_undisturbed hlib hpairs⟩, ?_,
    runCompile_one_place lib w r⟩
  intro hmemory hshallow htemplate houtput hresult
  exact allOrNothing_of_undisturbed hlib hpairs
    (undisturbed_of_inMemory hlib hmemory hshallow htemplate houtput hresult)

/-! ## The platform of this program -/

theorem withoutControls_of_not_mem {text : Text} (h : '\x1b' ∉ text) :
    withoutControls text = text := by
  refine Cursor.expand_of_misses _ (Cursor.misses_start_iff.2 fun d hd _ => ?_)
  unfold controlSequence?
  split
  · next rest hrest =>
    have hmem : '\x1b' ∈ d.text := d.rest_suffix_text.subset (by simp [hrest])
    exact absurd (hd ▸ hmem) h
  · rfl

theorem Platform.faithful_piped : Platform.piped.Faithful where
  badParameter := rfl
  exception := rfl
  crash := rfl
  echo_plain _ h := congrArg Except.ok (withoutControls_of_not_mem h)
  print_plain _ _ _ _ := ⟨_, rfl⟩

/-- A world with a template that is a closing tag, and nothing else. -/
def oneTemplate : World where
  files := .ofList (Path.ofText "/project".toList) [(Path.ofText "page".toList, "</x-a>".toList)]
  input := .text []
  environment := none

/-- What `compile page -o page` asks for. -/
def overwritingRequest : CompileRequest where
  template := "page".toList
  config := none
  variants := Variant.all
  output := some "page".toList
  strict := false
  verbose := false

/-- The result takes the place of the template. -/
theorem run_compile_overwriting :
    Platform.piped.read ["compile".toList, "page".toList, "-o".toList, "page".toList] =
        .ok (.compile overwritingRequest) ∧
      Config.load oneTemplate.files (named? overwritingRequest.config) oneTemplate.environment ≠
        .error (.json .halfPair) ∧
      oneTemplate.InMemory ∧
      AllOrNothing .piped oneTemplate overwritingRequest (runWords .piped oneTemplate
        ["compile".toList, "page".toList, "-o".toList, "page".toList]) ∧
      ((runWords .piped oneTemplate ["compile".toList, "page".toList, "-o".toList,
        "page".toList]).files oneTemplate).contents? (Path.ofText "page".toList) =
          some (.text " @endComponentClass##END-COMPONENT-CLASS##".toList) := by
  have hread : Platform.piped.read ["compile".toList, "page".toList, "-o".toList,
      "page".toList] = .ok (.compile overwritingRequest) := rfl
  have hpairs : Config.load oneTemplate.files (named? overwritingRequest.config)
      oneTemplate.environment ≠ .error (.json .halfPair) := nofun
  have hmemory : oneTemplate.InMemory := by
    refine ⟨fun file hfile => ?_, ⟨[], rfl⟩, fun _ _ => rfl⟩
    obtain rfl := List.mem_singleton.1 hfile
    exact ⟨_, rfl⟩
  have hresult : ∀ result, oneTemplate.Compiles .piped overwritingRequest (.ok result) →
      '\x1b' ∉ result := by
    have hcompiles : oneTemplate.Compiles .piped overwritingRequest
        (.ok " @endComponentClass##END-COMPONENT-CLASS##".toList) := ⟨_, {}, rfl, rfl, rfl, rfl⟩
    intro result h
    obtain rfl := Except.ok.inj (hcompiles.unique h)
    decide
  have h := run_compile_allOrNothing_iff .piped Platform.faithful_piped oneTemplate _
    overwritingRequest hread hpairs
  refine ⟨hread, hpairs, hmemory, ?_, rfl⟩
  exact h.2.1 hmemory (fun _ => rfl) (by decide) (by decide) hresult

/-- A world with a coloured word on the standard input. -/
def colouredInput : World where
  files := .ofList (Path.ofText "/project".toList) []
  input := .text "\x1b[31mred".toList
  environment := none

/-- What `compile -` asks for. -/
def inputRequest : CompileRequest where
  template := ['-']
  config := none
  variants := Variant.all
  output := none
  strict := false
  verbose := false

/-- The colour is lost on the way to the standard output. -/
theorem stdout_compile_colouredInput :
    Platform.piped.read ["compile".toList, ['-']] = .ok (.compile inputRequest) ∧
      colouredInput.Compiles .piped inputRequest (.ok "\x1b[31mred".toList) ∧
      (runWords .piped colouredInput ["compile".toList, ['-']]).status .piped = 0 ∧
      (runWords .piped colouredInput ["compile".toList, ['-']]).stdout = "red".toList ∧
      ¬ AllOrNothing .piped colouredInput inputRequest
        (runWords .piped colouredInput ["compile".toList, ['-']]) := by
  have hcompiles : colouredInput.Compiles .piped inputRequest (.ok "\x1b[31mred".toList) :=
    ⟨_, {}, rfl, rfl, rfl, rfl⟩
  refine ⟨rfl, hcompiles, rfl, rfl, fun h => ?_⟩
  have hecho : Platform.piped.echo "\x1b[31mred".toList = .ok "\x1b[31mred".toList :=
    (undisturbed_of_allOrNothing Platform.faithful_piped h).echoed _ hcompiles (.inl rfl)
  have hne : withoutControls "\x1b[31mred".toList ≠ "\x1b[31mred".toList := by decide
  exact hne (Except.ok.inj hecho)

end ComponentTags.Command
