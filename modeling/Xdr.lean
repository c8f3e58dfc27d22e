import Xdr.Main
import Xdr.Proofs.Bundle.Chains
import Xdr.Proofs.Bundle.Resolution
import Xdr.Proofs.CommandLine.FailedRun
import Xdr.Proofs.Decl.Dump
import Xdr.Proofs.Decl.Layout
import Xdr.Proofs.Decl.Merging
import Xdr.Proofs.Define
import Xdr.Proofs.Emit.Scope
import Xdr.Proofs.Emit.Slots
import Xdr.Proofs.Emit.WellFormed
import Xdr.Proofs.Interface.Faults
import Xdr.Proofs.Interface.Keys
import Xdr.Proofs.Interface.Origin
import Xdr.Proofs.Interface.Text
import Xdr.Proofs.Interface.Truncation
import Xdr.Proofs.Report
import Xdr.Proofs.Schema.Combinators
import Xdr.Proofs.Source.Places
import Xdr.Proofs.Wire.Buffer
import Xdr.Proofs.Wire.Cursor
