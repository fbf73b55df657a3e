import ClassSchema.CommandLine.Run
import ClassSchema.Compiler.Schema
import ClassSchema.Json.Reader
import ClassSchema.Loading.ClassName
import ClassSchema.Main
import ClassSchema.Model.Reader
import ClassSchema.Proofs.Ends
import ClassSchema.Proofs.Bookkeeping
import ClassSchema.Proofs.Descriptions
import ClassSchema.Proofs.Drafting
import ClassSchema.Proofs.References
import ClassSchema.Proofs.Pieces
import ClassSchema.Proofs.Visits
import ClassSchema.Proofs.Causes
import ClassSchema.Proofs.Traversal
import ClassSchema.Proofs.Elements
import ClassSchema.Proofs.Fields
import ClassSchema.Proofs.Messages
import ClassSchema.Proofs.Coverage
import ClassSchema.Proofs.Acceptance
import ClassSchema.Proofs.MessageNames
import ClassSchema.Proofs.Resolution
import ClassSchema.Proofs.Unresolved
import ClassSchema.Proofs.Lineages
import ClassSchema.Proofs.Faults
import ClassSchema.Proofs.Cycles
import ClassSchema.Proofs.Routes
import ClassSchema.Proofs.Exploration
import ClassSchema.Proofs.FieldLines
import ClassSchema.Proofs.LineNames
import ClassSchema.Proofs.Recording
import ClassSchema.Proofs.Lockstep.Basic
import ClassSchema.Proofs.Lockstep.Mirrors
import ClassSchema.Proofs.Lockstep.Elements
import ClassSchema.Proofs.Lockstep.Fields
import ClassSchema.Proofs.Lockstep.Messages
import ClassSchema.Proofs.Termination
import ClassSchema.Proofs.Moments
import ClassSchema.Proofs.Containers
import ClassSchema.Proofs.ElementPath
import ClassSchema.Proofs.Unions
import ClassSchema.Proofs.Restyling.Basic
import ClassSchema.Proofs.Restyling.Interchange
import ClassSchema.Proofs.Restyling.Resolution
import ClassSchema.Proofs.Restyling.Models
import ClassSchema.Proofs.Restyling.Invariance
import ClassSchema.Document.Call
import ClassSchema.Proofs.Writing
import ClassSchema.Proofs.Runs
import ClassSchema.Proofs.NameClaims
import ClassSchema.Proofs.Imports
import ClassSchema.Proofs.Words
import ClassSchema.Proofs.Renaming
import ClassSchema.Document.Reading
import ClassSchema.Proofs.Reading
import ClassSchema.Proofs.Legibility
import ClassSchema.Proofs.Layout
import ClassSchema.Proofs.Cutting
import ClassSchema.Proofs.ClassNames
import ClassSchema.Proofs.Literal
import ClassSchema.Proofs.Invocations
import ClassSchema.Proofs.Delivery
import ClassSchema.Proofs.Agreement
import ClassSchema.Proofs.Equality
import ClassSchema.Proofs.Trails
import ClassSchema.Proofs.Frames
import ClassSchema.Proofs.Classification
import ClassSchema.Proofs.Trips
import ClassSchema.Proofs.Discoveries
import ClassSchema.Proofs.ImportLines
import ClassSchema.Proofs.Constants
import ClassSchema.Proofs.Scopes
import ClassSchema.Proofs.Relisting
import ClassSchema.Proofs.Enumerations
import ClassSchema.Proofs.Tables
import ClassSchema.Proofs.ClassVariables
import ClassSchema.Proofs.Alternatives
import ClassSchema.Proofs.NameTables
import ClassSchema.Proofs.Ancestry
import ClassSchema.Proofs.Inheritance
import ClassSchema.Proofs.Identifiers
import ClassSchema.Proofs.StaleNames
import ClassSchema.Proofs.Tabulation
import ClassSchema.Proofs.LoadFaults
import ClassSchema.Proofs.Registrations
import ClassSchema.Proofs.Unwrapping
import ClassSchema.Proofs.PascalCase
import ClassSchema.Proofs.SearchPath
