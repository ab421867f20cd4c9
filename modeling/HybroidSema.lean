import HybroidSema.Alert.Basic
import HybroidSema.Alert.Code
import HybroidSema.Alert.Kind
import HybroidSema.Arguments
import HybroidSema.Check.Access
import HybroidSema.Check.Basic
import HybroidSema.Check.Call
import HybroidSema.Check.Container
import HybroidSema.Check.Declaration
import HybroidSema.Check.Exit
import HybroidSema.Check.Link
import HybroidSema.Check.Name
import HybroidSema.Check.Narrow
import HybroidSema.Check.Operation
import HybroidSema.Check.Place
import HybroidSema.Check.Tree
import HybroidSema.Check.Values
import HybroidSema.Check.WrittenType
import HybroidSema.CompileError
import HybroidSema.Declare.Aliases
import HybroidSema.Declare.Members
import HybroidSema.Declare.Names
import HybroidSema.Declare.Pass
import HybroidSema.EnvId
import HybroidSema.Environment
import HybroidSema.Exit
import HybroidSema.Library.Contents
import HybroidSema.Number.Binary64
import HybroidSema.Number.Reader
import HybroidSema.Number.Shortest
import HybroidSema.Operator
import HybroidSema.Proofs.Claimed
import HybroidSema.Proofs.Completion
import HybroidSema.Proofs.Constants
import HybroidSema.Proofs.Declarations
import HybroidSema.Proofs.Declared
import HybroidSema.Proofs.Frame
import HybroidSema.Proofs.Leaves
import HybroidSema.Proofs.Outline
import HybroidSema.Proofs.Progress
import HybroidSema.Proofs.Quiet
import HybroidSema.Proofs.Run
import HybroidSema.Proofs.Sound
import HybroidSema.Proofs.SoundDeclarations
import HybroidSema.Proofs.SoundParts
import HybroidSema.Proofs.Source
import HybroidSema.Proofs.Step
import HybroidSema.Proofs.TreeScopes
import HybroidSema.Proofs.TreeSound
import HybroidSema.Proofs.Unreachable
import HybroidSema.Proofs.Plain
import HybroidSema.Proofs.Valid
import HybroidSema.Proofs.Fine
import HybroidSema.Registry
import HybroidSema.Scope
import HybroidSema.Session.Basic
import HybroidSema.Session.Build
import HybroidSema.Span
import HybroidSema.Table
import HybroidSema.Tree
import HybroidSema.Ty.Agree
import HybroidSema.Ty.Basic
import HybroidSema.Ty.Generic
import HybroidSema.Value.Basic
import HybroidSema.Value.Declared
import HybroidSema.Proofs.Registered
import HybroidSema.Proofs.Returns
import HybroidSema.Proofs.BackEdges
import HybroidSema.Proofs.Cycles
import HybroidSema.Proofs.Narrowing
import HybroidSema.Proofs.MissingExits
import HybroidSema.Proofs.FinishedWalks
import HybroidSema.Proofs.ScopeDiscipline
import HybroidSema.Proofs.ContainerScope
import HybroidSema.Proofs.FieldMarks
import HybroidSema.Proofs.CycleRotations
import HybroidSema.Proofs.RootExits
import HybroidSema.Proofs.Visits
import HybroidSema.Proofs.Regions
import HybroidSema.Proofs.ExitTargets
import HybroidSema.Proofs.PartRuns
import HybroidSema.Proofs.MethodOwners
import HybroidSema.Proofs.Replacements
import HybroidSema.Proofs.ResolvedTree
import HybroidSema.Proofs.ResolvedRuns
import HybroidSema.Proofs.MethodCalls
import HybroidSema.Proofs.BuildWalks
import HybroidSema.Proofs.QualifiedNames
import HybroidSema.Proofs.KeptNarrowings
import HybroidSema.Proofs.TidyVisits
import HybroidSema.Proofs.Reached
import HybroidSema.Proofs.Accesses
import HybroidSema.Proofs.Agreement
import HybroidSema.Proofs.OwnDeclarations
import HybroidSema.Proofs.PermittedNames
import HybroidSema.Proofs.GenericScope
import HybroidSema.Proofs.Inference
import HybroidSema.Proofs.DefaultLiterals
import HybroidSema.Proofs.Indexing
import HybroidSema.Proofs.AccessControl
import HybroidSema.Proofs.FoldedNumbers
import HybroidSema.Proofs.Pruning
import HybroidSema.Proofs.DeadStatements
import HybroidSema.Proofs.PrunedWalks
import HybroidSema.Proofs.PrunedPrograms
import HybroidSema.Proofs.AliasOrder
import HybroidSema.Proofs.FirstClaims
import HybroidSema.Proofs.AliasCycles
import HybroidSema.Proofs.OneNamespace
import HybroidSema.Proofs.TypeReadings
import HybroidSema.Proofs.MemberReadings
import HybroidSema.Proofs.UnreadAlerts
import HybroidSema.Proofs.ForwardReferences
import HybroidSema.Proofs.AliasTypes
import HybroidSema.Proofs.AliasTargets
import HybroidSema.Proofs.EntityContract
import HybroidSema.Proofs.EnvironmentNames
import HybroidSema.Proofs.ScopePositions
import HybroidSema.Proofs.ScopeLaws
import HybroidSema.Proofs.LifecycleCounts
import HybroidSema.Proofs.LifecycleTurns
import HybroidSema.Proofs.ArgumentHints
import HybroidSema.Proofs.AssignedFields
import HybroidSema.Proofs.ContainerBodies
import HybroidSema.Proofs.MadeUpNames
import HybroidSema.Proofs.RegisteredMembers
import HybroidSema.Proofs.TickExits
import HybroidSema.Proofs.UninitializedFields
