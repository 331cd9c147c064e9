import EngineHost.CommandLine
import EngineHost.Proofs.Cleanup
import EngineHost.Proofs.Contract.Layout
import EngineHost.Proofs.History

/-!
# What the program delivers

The program has a result if every stage on the way to one succeeds: the code is there, the module
is loaded and offers what the host needs, the code is hexadecimal and not empty, its analysis has a
payload, and the payload is a contract. Then it writes the contract, in a layout from which the
contract can be read again. If any stage fails it writes nothing.
-/

namespace EngineHost

variable {σ : Type}

/-! ### Loading the engine -/

namespace Blueprint

/-- The module starts with this sandbox, and has the memory and the entry points that the host
needs. -/
structure Offers (b : Blueprint σ) (sandbox : Sandbox σ) : Prop where
  start : b.start = some sandbox
  memory : b.memory = true
  alloc : b.alloc = .matching
  dealloc : b.dealloc = .matching
  analyze : b.analyze = .matching

/-- A sandbox opens just in case the module offers what the host needs. -/
theorem instantiate_eq_ok_iff {b : Blueprint σ} {sandbox : Sandbox σ} :
    b.instantiate = .ok sandbox ↔ b.Offers sandbox := by
  constructor
  · intro h
    rcases b with ⟨_ | fresh, _ | _, alloc, dealloc, analyze, engine⟩
    · cases h
    · cases h
    · cases h
    · cases alloc <;> cases dealloc <;> cases analyze <;> cases h
      exact ⟨rfl, rfl, rfl, rfl, rfl⟩
  · rintro ⟨hstart, hmemory, halloc, hdealloc, hanalyze⟩
    simp only [instantiate, hstart, hmemory, halloc, hdealloc, hanalyze]
    rfl

end Blueprint

namespace Analyzer

/-- An analyzer with one handle, on a fresh sandbox. -/
def single (b : Blueprint σ) (sandbox : Sandbox σ) (digest : Bytes) : Analyzer σ :=
  ⟨b.engine, { seats := [some sandbox], seats_ne_nil := by simp }, digest⟩

/-- Of one handle, an analyzer is made just in case a sandbox opens for it. -/
theorem ofBlueprint_one {b : Blueprint σ} {digest : Bytes} {a : Analyzer σ} :
    ofBlueprint b digest 1 = .ok a ↔
      ∃ sandbox, b.Offers sandbox ∧ a = single b sandbox digest := by
  simp only [← Blueprint.instantiate_eq_ok_iff]
  rcases hfresh : b.instantiate with fault | sandbox
  · simp [ofBlueprint, Pool.ofBlueprint, hfresh, Except.map]
  · have hsingle : ofBlueprint b digest 1 = .ok (single b sandbox digest) := by
      rw [ofBlueprint, Pool.ofBlueprint, hfresh]
      rfl
    simp [hsingle, eq_comm]

/-- The first call on an analyzer with one handle is the analysis of the code in a fresh sandbox,
and the handle can be closed after it. -/
theorem analyze_single (b : Blueprint σ) (sandbox : Sandbox σ) (digest : Bytes)
    (request : Request) :
    ((single b sandbox digest).analyze request).1 =
        (Sandbox.analyze b.engine request.code request.options.mask sandbox {}).1.bind
          decodePayload ∧
      ((single b sandbox digest).analyze request).2.close.1 = .ok () := by
  have hcall := Handle.analyze_of_open b.engine sandbox {} request false
  simp only [Handle.report_false] at hcall
  simp only [analyze, single, Pool.analyze_eq, Pool.onSeat, List.getD_cons_zero, hcall, true_and]
  rfl

/-- A call has a contract as its answer just in case it has a payload that describes it. -/
theorem bind_decodePayload_eq_ok_iff {result : Except Error Bytes} {c : Contract} :
    result.bind decodePayload = .ok c ↔
      ∃ payload, result = .ok payload ∧ Contract.decode payload = .ok c := by
  rcases result with e | payload
  · simp [Except.bind]
  · rcases hdecoded : Contract.decode payload with fault | contract
    · simp [Except.bind, decodePayload, hdecoded]
    · simp [Except.bind, decodePayload, hdecoded]

/-- The first call on an analyzer with one handle has a contract if each of its stages succeeds. -/
theorem analyzeHex_single_eq_ok_iff {b : Blueprint σ} {sandbox : Sandbox σ} {digest : Bytes}
    {text : String} {options : Options} {c : Contract} :
    ((single b sandbox digest).analyzeHex text options).1 = .ok c ↔
      ∃ code payload, Hex.Spells text code ∧
        (Sandbox.analyze b.engine code options.mask sandbox {}).1 = .ok payload ∧
        Contract.decode payload = .ok c := by
  simp only [← Hex.parse_eq_ok_iff, analyzeHex, Request.ofHex]
  rcases Hex.parse text with fault | code
  · simp
  · simp [analyze_single, bind_decodePayload_eq_ok_iff]

/-- After any analysis, the one handle can still be closed. -/
theorem close_analyzeHex_single (b : Blueprint σ) (sandbox : Sandbox σ) (digest : Bytes)
    (text : String) (options : Options) :
    ((single b sandbox digest).analyzeHex text options).2.close.1 = .ok () := by
  rw [analyzeHex]
  cases Request.ofHex text options with
  | error e => rfl
  | ok request => exact (analyze_single b sandbox digest request).2

end Analyzer

namespace CommandLine

/-! ### The stages of a run -/

/-- The text of the code: the one in the arguments, or the contents of the file that they name. -/
inductive CodeText (files : Files) (args : Arguments) : String → Prop where
  | given {text : String} (hcode : args.code = some text) : CodeText files args text
  | file {path : Bytes} {text : String} (hpath : args.codePath = some path)
    (hfile : files path = .ok (Bytes.ofText text)) : CodeText files args text

/-- The file of the engine module: the one that the arguments name, or else the environment. -/
def modulePath? (env : Environment) (args : Arguments) : Option Bytes :=
  args.modulePath.or (Environment.path? (env.get? Config.modulePathVariable))

/-- Every stage on the way to this contract succeeds. -/
inductive Delivers (compiler : Compiler σ) (files : Files) (env : Environment) (args : Arguments)
    (c : Contract) : Prop where
  | mk {text : String} {path : Bytes} {m : Module} {b : Blueprint σ} {sandbox : Sandbox σ}
    {code payload : Bytes} (htext : CodeText files args text)
    (hpath : modulePath? env args = some path) (hmodule : Module.ofFile files path = .ok m)
    (hcompiled : compiler m.bytes = some b) (hoffers : b.Offers sandbox)
    (hcode : Hex.Spells text code) (hne : code ≠ [])
    (hpayload : (Sandbox.analyze b.engine code args.options.mask sandbox {}).1 = .ok payload)
    (hcontract : Contract.decode payload = .ok c) : Delivers compiler files env args c

/-- Arguments that are acted upon give the code in one way only. -/
theorem code_ne_codePath {arguments : List Bytes} {args : Arguments}
    (hread : Arguments.read arguments = .ok args) : args.code.isSome ≠ args.codePath.isSome := by
  unfold Arguments.read at hread
  split at hread
  case h_1 => cases hread
  case h_2 =>
    split at hread
    case isTrue => cases hread
    case isFalse hboth =>
      cases hread
      simpa using hboth

section Stages

variable {compiler : Compiler σ} {files : Files} {env : Environment} {args : Arguments}

/-- With one of the two ways to give the code, the code is read just in case it is given in this
way. -/
theorem code_eq_ok_iff {text : String} (hone : args.code.isSome ≠ args.codePath.isSome) :
    code files args = .ok text ↔ CodeText files args text := by
  constructor
  · intro h
    unfold code at h
    split at h
    case h_1 given _ hgiven =>
      cases h
      exact .given hgiven
    case h_2 hnone =>
      obtain ⟨path, hpath⟩ : ∃ path, args.codePath = some path := by
        apply Option.ne_none_iff_exists'.mp
        simpa [hnone] using hone
      simp only [hpath, Option.getD_some] at h
      split at h
      case h_1 => cases h
      case h_2 bytes hfile =>
        split at h
        case h_1 => cases h
        case h_2 found hfound =>
          cases h
          rw [Bytes.text?_eq_some_iff.mp hfound] at hfile
          exact .file hpath hfile
  · rintro (⟨hgiven⟩ | ⟨hpath, hfile⟩)
    · simp only [code, hgiven]
    · -- The code in the arguments would go first, but there is none beside a file.
      have hnone : args.code = none := by simpa [hpath] using hone
      simp only [code, hnone, hpath, Option.getD_some, hfile, Bytes.text?_ofText]

/-- The module of the configuration is the one in the file that the arguments or the environment
name. -/
theorem loadModule_eq_ok_iff {m : Module} :
    (config env args).loadModule files env = .ok m ↔
      ∃ path, modulePath? env args = some path ∧ Module.ofFile files path = .ok m := by
  unfold config modulePath?
  rcases args.modulePath with _ | path
  · rcases hset : Environment.path? (env.get? Config.modulePathVariable) with _ | path
    · simp [Config.loadModule, Config.withPoolSize, Config.ofEnvironment, Config.bundledModule,
        hset]
    · simp [Config.loadModule, Config.withPoolSize, Config.ofEnvironment, hset]
  · simp [Config.loadModule, Config.withModulePath]

/-- The program loads its engine with one handle. -/
theorem ofConfig_eq_ok_iff {a : Analyzer σ} :
    Analyzer.ofConfig compiler files env 1 (config env args) = .ok a ↔
      ∃ path m b sandbox, modulePath? env args = some path ∧ Module.ofFile files path = .ok m ∧
        compiler m.bytes = some b ∧ b.Offers sandbox ∧ a = .single b sandbox m.digest := by
  have hsize : (config env args).poolSize.count 1 = 1 := by
    unfold config
    cases args.modulePath <;> rfl
  unfold Analyzer.ofConfig
  rw [hsize]
  constructor
  · intro h
    split at h
    case h_1 => cases h
    case h_2 m hmodule =>
      obtain ⟨path, hpath, hfile⟩ := loadModule_eq_ok_iff.mp hmodule
      unfold Analyzer.ofModule Blueprint.ofModule at h
      rcases hcompiled : compiler m.bytes with _ | b
      · simp [hcompiled] at h
      · simp only [hcompiled] at h
        obtain ⟨sandbox, hoffers, hsingle⟩ := Analyzer.ofBlueprint_one.mp h
        exact ⟨path, m, b, sandbox, hpath, hfile, hcompiled, hoffers, hsingle⟩
  · rintro ⟨path, m, b, sandbox, hpath, hfile, hcompiled, hoffers, rfl⟩
    rw [loadModule_eq_ok_iff.mpr ⟨path, hpath, hfile⟩]
    simp only [Analyzer.ofModule, Blueprint.ofModule, hcompiled]
    exact Analyzer.ofBlueprint_one.mpr ⟨sandbox, hoffers, rfl⟩

/-- A run has a contract if the code is there, the engine is loaded, and both the call and the
closing succeed. -/
theorem analyze_eq_ok_iff {c : Contract} :
    analyze compiler files env args = .ok c ↔
      ∃ text a, code files args = .ok text ∧
        Analyzer.ofConfig compiler files env 1 (config env args) = .ok a ∧
        (a.analyzeHex text args.options).1 = .ok c ∧
        (a.analyzeHex text args.options).2.close.1 = .ok () := by
  unfold analyze
  rcases code files args with failure | text
  · simp [bind, Except.bind]
  rcases Analyzer.ofConfig compiler files env 1 (config env args) with fault | a
  · simp [bind, Except.bind]
  simp only [bind, Except.bind, Except.ok.injEq, exists_and_left, exists_eq_left']
  rcases a.analyzeHex text args.options with ⟨e | contract, used⟩
  · simp
  rcases hclose : used.close.1 with e | _
  · simp [hclose]
  · simp [hclose]

/-- Only code that is not empty has a payload. -/
theorem ne_nil_of_analyze {engine : Engine σ} {code payload : Bytes} {mask : UInt32}
    {s : Sandbox σ} {j : Journal} (hok : (Sandbox.analyze engine code mask s j).1 = .ok payload) :
    code ≠ [] := by
  rintro rfl
  rw [Sandbox.analyze_fst] at hok
  cases hok

/-- The program has exactly the contracts that it delivers. -/
theorem analyze_eq_ok_iff_delivers {c : Contract}
    (hone : args.code.isSome ≠ args.codePath.isSome) :
    analyze compiler files env args = .ok c ↔ Delivers compiler files env args c := by
  rw [analyze_eq_ok_iff]
  constructor
  · rintro ⟨text, a, htext, hload, hanalyze, -⟩
    obtain ⟨path, m, b, sandbox, hpath, hmodule, hcompiled, hoffers, rfl⟩ :=
      ofConfig_eq_ok_iff.mp hload
    obtain ⟨code, payload, hcode, hpayload, hcontract⟩ :=
      Analyzer.analyzeHex_single_eq_ok_iff.mp hanalyze
    exact .mk ((code_eq_ok_iff hone).mp htext) hpath hmodule hcompiled hoffers hcode
      (ne_nil_of_analyze hpayload) hpayload hcontract
  · rintro ⟨htext, hpath, hmodule, hcompiled, hoffers, hcode, -, hpayload, hcontract⟩
    refine ⟨_, _, (code_eq_ok_iff hone).mpr htext,
      ofConfig_eq_ok_iff.mpr ⟨_, _, _, _, hpath, hmodule, hcompiled, hoffers, rfl⟩, ?_, ?_⟩
    · exact Analyzer.analyzeHex_single_eq_ok_iff.mpr ⟨_, _, hcode, hpayload, hcontract⟩
    · exact Analyzer.close_analyzeHex_single ..

end Stages

/-! ### Runs -/

/-- With arguments that are acted upon, the program ends with 0 exactly if every stage succeeds. It
then writes the contract as one JSON text and a line feed, and the contract is decoded from that
text in either of its layouts. Otherwise the program ends with 1 and writes nothing. -/
theorem run_exact {arguments : List Bytes} {args : Arguments}
    (hread : Arguments.read arguments = .ok args) (compiler : Compiler σ) (files : Files)
    (env : Environment) :
    ((run compiler files env arguments).status = 0 ↔
        ∃ c, Delivers compiler files env args c) ∧
      (∀ c, Delivers compiler files env args c →
        (run compiler files env arguments).output =
            (if args.pretty then c.toJson.pretty 0 else c.toJson.compact) ++ [10] ∧
          ∀ text ∈ [c.toJson.compact, c.toJson.pretty 0],
            (∃ root, Json.Written (.value root) text) ∧ Contract.decode text = .ok c) ∧
      ((¬∃ c, Delivers compiler files env args c) →
        (run compiler files env arguments).status = 1 ∧
          (run compiler files env arguments).output = []) := by
  simp only [← analyze_eq_ok_iff_delivers (code_ne_codePath hread), run, hread]
  rcases analyze compiler files env args with failure | contract
  · simp
  · refine ⟨by simp, ?_, by simp⟩
    rintro c ⟨⟩
    exact ⟨rfl, contract.decode_layouts⟩

/-- A compiler of modules that answer every analysis with this payload. -/
def answering (payload : Bytes) : Compiler Unit := fun _ =>
  some {
    start := some ⟨.zeros 1, ()⟩
    memory := true
    alloc := .matching
    dealloc := .matching
    analyze := .matching
    engine := {
      alloc := fun _ s => (.returned 8, s)
      analyze := fun _ _ _ s =>
        (.returned 16, ⟨(s.memory.write? 16 (Bytes.ofWord payload.length.toUInt32 ++ payload)).getD
          s.memory, ()⟩)
      dealloc := fun _ _ s => (.returned (), s) } }

/-- A contract with an empty list of functions is written with its one member on a line. -/
theorem run_exact_noFunctions :
    let arguments := ["--wasm=m", "--code", "0x6000", "--pretty"].map Bytes.ofText
    let contract : Contract := { functions := some [] }
    let files : Files := fun path => if path = [109] then .ok [0] else .error .notFound
    let completion := run (answering contract.toJson.compact) files {} arguments
    completion.status = 0 ∧
      completion.output = Bytes.ofText "\x7b\n  \"functions\": []\n\x7d\n" := by
  intro arguments contract files completion
  have hread : Arguments.read arguments =
      .ok { modulePath := some [109], code := some "0x6000", pretty := true } := by
    decide +kernel
  have htext : contract.toJson.compact =
      [123, 34, 102, 117, 110, 99, 116, 105, 111, 110, 115, 34, 58, 91, 93, 125] := by
    decide +kernel
  have hcode : Hex.Spells "0x6000" [96, 0] := Hex.parse_eq_ok_iff.mp (by decide +kernel)
  have hdecoded := (contract.decode_layouts _ (List.mem_cons_self ..)).2
  have hdelivers : Delivers (answering contract.toJson.compact) files {}
      { modulePath := some [109], code := some "0x6000", pretty := true } contract := by
    refine .mk (.given rfl) rfl rfl rfl ⟨rfl, rfl, rfl, rfl, rfl⟩ hcode (by decide) ?_ hdecoded
    rw [htext]
    rfl
  obtain ⟨hstatus, houtput, -⟩ := run_exact hread (answering contract.toJson.compact) files {}
  refine ⟨hstatus.mpr ⟨contract, hdelivers⟩, (houtput contract hdelivers).1.trans ?_⟩
  decide +kernel

end CommandLine

end EngineHost
