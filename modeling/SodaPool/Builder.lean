import SodaPool.Generator
import SodaPool.OsPath

/-!
# The builder

It goes through the files of one directory. Around the parser and the generator it only
asks for names and for the contents of files, and writes the output next to the input.
-/

namespace SodaPool
namespace Build

open Syn OsPath

/-- What is used of `syn`, `proc_macro2` and `prettyplease`. `Ident::new` panics where it
gives nothing here, `parse2` reads the tokens that a tree stands for. -/
structure Toolchain where
  parseIdent : String → Option Ident
  parseFile : String → Option File
  identNew : String → Option Ident
  parse2 : File → Option File
  unparse : File → String

/-- A file comes with what `read_to_string` makes of it. -/
inductive Node
  | directory
  | file (contents : Except String String)

/-- The entries of the directory: as they were found, and what was written since. -/
structure Disk where
  found : FileName → Option Node
  written : List (FileName × String)

namespace Disk

def node (d : Disk) (n : FileName) : Option Node :=
  match d.written.lookup n with
  | some text => some (.file (.ok text))
  | none => d.found n

def write (d : Disk) (n : FileName) (text : String) : Disk :=
  {d with written := (n,text)::d.written}

theorem node_write_self (d : Disk) (n : FileName) (text : String) :
    (d.write n text).node n = some (.file (.ok text)) := by
  simp [node,write]

theorem node_write_of_ne (d : Disk) {n m : FileName} (text : String) (h : m ≠ n) :
    (d.write n text).node m = d.node m := by
  simp [node,write,List.lookup_cons,beq_eq_false_iff_ne.mpr h]

/-- The file was written in the meantime. -/
def Wrote (d : Disk) (n : FileName) : Prop := ∃ text, (n,text) ∈ d.written

theorem node_of_wrote {d : Disk} {n : FileName} (h : d.Wrote n) :
    ∃ text, (n,text) ∈ d.written ∧ d.node n = some (.file (.ok text)) := by
  obtain ⟨text,htext⟩ := h
  cases hlookup : d.written.lookup n with
  | none => exact absurd (List.lookup_eq_none_iff.mp hlookup _ htext) (by simp)
  | some found =>
    obtain ⟨before,after,heq,-⟩ := List.lookup_eq_some_iff.mp hlookup
    have hmem : (n,found) ∈ d.written := by simp [heq]
    exact ⟨found,hmem,by rw [node,hlookup]⟩

theorem node_of_not_wrote {d : Disk} {n : FileName} (h : ¬ d.Wrote n) : d.node n = d.found n := by
  have hlookup : d.written.lookup n = none := by
    rw [List.lookup_eq_none_iff]
    rintro ⟨m,text⟩ hmem
    rw [bne_iff_ne]
    rintro rfl
    exact h ⟨text,hmem⟩
  rw [node,hlookup]

theorem wrote_write (d : Disk) (n m : FileName) (text : String) :
    (d.write n text).Wrote m ↔ m = n ∨ d.Wrote m := by
  simp only [Wrote,write,List.mem_cons,Prod.mk.injEq]
  constructor
  · rintro ⟨text',⟨rfl,-⟩ | hmem⟩
    · exact Or.inl rfl
    · exact Or.inr ⟨text',hmem⟩
  · rintro (rfl | ⟨text',hmem⟩)
    · exact ⟨text,Or.inl ⟨rfl,rfl⟩⟩
    · exact ⟨text',Or.inr hmem⟩

end Disk

/-- How a call ends that does not return `Ok`. -/
inductive Failure
  | error (e : BuilderError)
  | panic
  deriving DecidableEq

def okOr {α : Type} (e : Failure) : Option α → Except Failure α
  | some a => .ok a
  | none => .error e

/-- `dir.join(file)`. -/
def join (dir : OsStr) (file : FileName) : OsStr :=
  if dir = [] ∨ dir.getLast? = some OsStr.slash then dir ++ file.units
  else dir ++ OsStr.slash::file.units

/-- The name of the output. -/
def outputFile (serviceFile : FileName) : FileName :=
  serviceFile.ending "_pool.rs" (by decide) (by decide)

def header : String := "// This file is @generated by soda-pool-build.\n"

/-- One call after the other, up to the first that fails. -/
def tryForEach {σ α : Type} (f : σ → α → Except Failure σ) : σ → List α → σ × Except Failure Unit
  | s,[] => (s,.ok ())
  | s,a::as =>
    match f s a with
    | .ok t => tryForEach f t as
    | .error e => (s,.error e)

structure SodaPoolBuilder where
  dir : Option OsStr
  deriving DecidableEq

section Calls

variable (tc : Toolchain)

def parseGrpcClientFile (dir : OsStr) (d : Disk) (clientFile : FileName) :
    Except Failure GrpcClientFile :=
  match d.node clientFile with
  | some (.file contents) => do
    let name ← okOr .panic clientFile.fileStem.toStr
    let fileModule ← okOr (.error .synError) (tc.parseIdent name)
    let rawContents ← contents.mapError (fun message => .error (.ioError message))
    let synParsedContents ← okOr (.error .synError) (tc.parseFile rawContents)
    let clientModules ← (parseClientModules synParsedContents).mapError .error
    return ⟨fileModule,clientModules⟩
  | _ => .error (.error (.ioError ("File not found: " ++ (join dir clientFile).display)))

/-- The text of the output. -/
def formatted (serviceFileStructure : GrpcClientFile) : Except Failure String := do
  let output ← okOr .panic (serviceFileStructure.generatePooledVersion tc.identNew)
  let file ← okOr (.error .synError) (tc.parse2 output)
  return header ++ tc.unparse file

def buildClient (dir : OsStr) (d : Disk) (service : FileName) : Except Failure Disk := do
  let serviceFile := service.withExtensionRs
  let serviceFileStructure ← parseGrpcClientFile tc dir d serviceFile
  if serviceFileStructure.clientModules.all (fun m => m.clients.isEmpty) then
    .error (.error .grpcClientNotFound)
  else
    let text ← formatted tc serviceFileStructure
    -- `fs::write` fails on a directory, and is unwrapped
    match d.node (outputFile serviceFile) with
    | some .directory => .error .panic
    | _ => return d.write (outputFile serviceFile) text

namespace SodaPoolBuilder

def configure : SodaPoolBuilder := ⟨none⟩

def setDir (b : SodaPoolBuilder) (dir : OsStr) : SodaPoolBuilder := {b with dir := some dir}

def buildClients (b : SodaPoolBuilder) (d : Disk) (services : List FileName) :
    Disk × Except Failure Unit :=
  match b.dir with
  | none => (d,.error (.error (.missingConfiguration "dir")))
  | some dir => tryForEach (buildClient tc dir) d services

/-- One entry of the directory. -/
def buildEntry (b : SodaPoolBuilder) (d : Disk) (entry : FileName) : Except Failure Disk :=
  match d.node entry with
  | some (.file _) =>
    if entry.IsRs then
      match b.buildClients tc d [entry] with
      | (d',.ok ()) | (d',.error (.error .grpcClientNotFound)) => .ok d'
      | (_,.error e) => .error e
    else .ok d
  | _ => .ok d

/-- All entries, in the order in which `read_dir` lists them. -/
def buildAllClients (b : SodaPoolBuilder) (d : Disk) (entries : List FileName) :
    Disk × Except Failure Unit :=
  match b.dir with
  | none => (d,.error (.error (.missingConfiguration "dir")))
  | some _ => tryForEach (b.buildEntry tc) d entries

end SodaPoolBuilder
end Calls
end Build
end SodaPool
