import SqlForge.Database.Recorder
import SqlForge.Draft
import SqlForge.Session
import SqlForge.Table.Catalog
import SqlForge.Proofs.Texts
import SqlForge.Proofs.Words
import SqlForge.Proofs.Bindings
import SqlForge.Proofs.Filling
import SqlForge.Proofs.Literals
import SqlForge.Proofs.Rendering
import SqlForge.Proofs.Decoding
import SqlForge.Proofs.Insertion
import SqlForge.Proofs.Confinement
import SqlForge.Proofs.Conditions
import SqlForge.Proofs.Changes
import SqlForge.Proofs.Selections
import SqlForge.Proofs.Drafts
import SqlForge.Proofs.Formulas
import SqlForge.Proofs.Meaning
import SqlForge.Proofs.Guards
import SqlForge.Proofs.Catalog
import SqlForge.Proofs.Sessions
import SqlForge.Proofs.Databases
import SqlForge.Proofs.Ownership
import SqlForge.Proofs.Refusals
import SqlForge.Proofs.Calls
import SqlForge.Proofs.Resolution
import SqlForge.Proofs.Numerals
import SqlForge.Proofs.Arguments
import SqlForge.Proofs.Comparisons
import SqlForge.Proofs.Operators
import SqlForge.Proofs.ServerTypes
import SqlForge.Proofs.Definitions
import SqlForge.Proofs.Renaming
import SqlForge.Proofs.Histories
import SqlForge.Proofs.Creation
import SqlForge.Proofs.Aliases
import SqlForge.Proofs.Identifiers
import SqlForge.Proofs.Grammar
import SqlForge.Proofs.Entries
