import Xdr.Emit.Phrase
import Xdr.Emit.Resolve

/-!
# Emitted programs

## Design Notes

A program is emitted as a module with one module for each version, and in it
one for each procedure. The versions are checked one by one, each right
before it is emitted.
-/

namespace Xdr.Emit

/-- A procedure with its number, types and full name. -/
structure ProcPlan where
  decl : ProcDecl
  id : String
  arg : String
  res : String
  path : String
  deriving DecidableEq, Repr

/-- A version with its number and procedures. -/
structure VersionPlan where
  name : String
  id : String
  procs : List ProcPlan
  deriving DecidableEq, Repr

/-- Checks a procedure of the given service. -/
def procPlan (bundle : Bundle) (service : String) (decl : ProcDecl) :
    Except EmitError ProcPlan := do
  let path := s!"{service}.{decl.name}"
  let id ← bundle.unsignedText decl.id path
  let arg ← bundle.signatureText decl.arg path
  let res ← bundle.signatureText decl.res path
  return ⟨decl, id, arg, res, path⟩

/-- Checks a version of the given program. -/
def versionPlan (bundle : Bundle) (program : String) (decl : VersionDecl) :
    Except EmitError VersionPlan := do
  let service := s!"{program}.{decl.name}"
  let id ← bundle.unsignedText decl.number service
  return ⟨decl.name, id, ← decl.procs.mapM (procPlan bundle service)⟩

open Stroke

/-- The entry of a procedure in the table of its version. -/
def procEntry (proc : ProcPlan) : String :=
  s!"Procedure \x7b program: super::ID, version: ID, id: {proc.decl.name}::ID, " ++
    s!"name: {proc.decl.name}::NAME \x7d,"

/-- The table of a version's procedures. -/
def tableStrokes (procs : List ProcPlan) : List Stroke :=
  if procs.isEmpty then [.line "pub const PROCEDURES: &[Procedure] = &[];"]
  else
    List.flatten [
      [.line "pub const PROCEDURES: &[Procedure] = &[", .deeper],
      procs.map fun proc => .line (procEntry proc),
      leaveWith "];"]

/-- The method that serves a procedure. -/
def methodText (proc : ProcPlan) : String :=
  let name := proc.decl.name
  let arg := if proc.decl.arg = .void then "" else s!", arg: {name}::Arg"
  let res := if proc.decl.res = .void then "" else s!" -> {name}::Res"
  s!"fn {name}(&mut self{arg}){res};"

/-- A type that is declared. -/
def isNamed : TypeRef → Bool
  | .named _ => true
  | _ => false

/-- The module of a procedure. -/
def procStrokes (proc : ProcPlan) : List Stroke :=
  List.flatten [
    enter s!"pub mod {proc.decl.name}",
    if isNamed proc.decl.arg || isNamed proc.decl.res then superStrokes else [],
    [.line s!"pub const ID: u32 = {proc.id};",
      .line s!"pub const NAME: &str = {quoted proc.path};",
      .line s!"pub type Arg = {proc.arg};",
      .line s!"pub type Res = {proc.res};"],
    leave]

/-- The module of a version. -/
def versionStrokes (plan : VersionPlan) : List Stroke :=
  List.flatten [
    enter s!"pub mod {plan.name}",
    superStrokes,
    [.line s!"pub const ID: u32 = {plan.id};", .blank],
    tableStrokes plan.procs, [.blank],
    enter "pub trait Service",
    plan.procs.map fun proc => .line (methodText proc),
    leave,
    plan.procs.flatMap fun proc => .blank :: procStrokes proc,
    leave]

/-- Emits a program. -/
def programStrokes (bundle : Bundle) (decl : ProgramDecl) : List Stroke :=
  checkedStrokes (bundle.unsignedText decl.number decl.name) fun id =>
    List.flatten [
      enter s!"pub mod {decl.name}",
      superStrokes,
      [.line s!"pub const ID: u32 = {id};"],
      decl.versions.flatMap fun version =>
        .blank :: checkedStrokes (versionPlan bundle decl.name version) versionStrokes,
      leave, [.blank]]

end Xdr.Emit
