import SlotIR.Main
import SlotIR.Session.Recording
import SlotIR.Proofs.Preservation
import SlotIR.Proofs.Layout
import SlotIR.Proofs.RunLog
import SlotIR.Proofs.Initialization
import SlotIR.Proofs.TypeChecking
import SlotIR.Proofs.History
import SlotIR.Proofs.Declarations
import SlotIR.Proofs.FilePrefixes
import SlotIR.Proofs.ScopeSupply
import SlotIR.Proofs.FailedDefinition
import SlotIR.Proofs.MissingReturn
import SlotIR.Proofs.Interaction
import SlotIR.Proofs.DetachedBlocks
import SlotIR.Proofs.ErrorPlaces
import SlotIR.Proofs.Wrappers
import SlotIR.Proofs.Conditions
import SlotIR.Proofs.FloatLiterals
import SlotIR.Proofs.Printing
import SlotIR.Proofs.IntegerLiterals
import SlotIR.Proofs.SignatureConflicts
import SlotIR.Proofs.ConstantText
import SlotIR.Proofs.ScopeSupply
