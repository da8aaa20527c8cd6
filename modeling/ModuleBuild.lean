import ModuleBuild.Main
import ModuleBuild.Proofs.ModuleText.Opening
import ModuleBuild.Proofs.FileTree.Following
import ModuleBuild.Proofs.FileTree.Shape
import ModuleBuild.Proofs.ModuleText.Items
import ModuleBuild.Proofs.Output.SecondRun
import ModuleBuild.Proofs.FileTree.Copying
import ModuleBuild.Proofs.FileTree.Delivering
import ModuleBuild.Proofs.FileTree.Removing
import ModuleBuild.Proofs.FileTree.Replacing
import ModuleBuild.Proofs.Output.Outside
import ModuleBuild.Proofs.Json.Grammar
import ModuleBuild.Proofs.Json.Layout
import ModuleBuild.Proofs.FileTree.Walking
import ModuleBuild.Proofs.Output.Listed
import ModuleBuild.Proofs.Path.Pieces
import ModuleBuild.Proofs.Project.OutputDir
import ModuleBuild.Proofs.Output.Emitted
import ModuleBuild.Proofs.Number.ReadBack
import ModuleBuild.Proofs.Json.Numbers
import ModuleBuild.Proofs.Json.Rendering
import ModuleBuild.Proofs.Project.Recorded
import ModuleBuild.Proofs.FileTree.Mirroring
import ModuleBuild.Proofs.FileTree.Keeping
import ModuleBuild.Proofs.FileTree.Preparing
import ModuleBuild.Proofs.FileTree.Renewing
import ModuleBuild.Proofs.FileTree.Within
import ModuleBuild.Proofs.Output.EachModule
import ModuleBuild.Proofs.Output.PlacedAgain
import ModuleBuild.Proofs.Build.Configuring
import ModuleBuild.Proofs.Build.AskedOnce
import ModuleBuild.Proofs.Specifier.Disguise
import ModuleBuild.Proofs.ModuleText.KeptLines
import ModuleBuild.Proofs.FileTree.Spot
import ModuleBuild.Proofs.Build.BuiltTwice
import ModuleBuild.Proofs.Project.Redirected
import ModuleBuild.Proofs.Output.SourcesApart
import ModuleBuild.Proofs.Project.Started
import ModuleBuild.Proofs.Project.SavedAndLoaded
import ModuleBuild.Proofs.Project.Transacting
import ModuleBuild.Proofs.Project.BothRecorded
import ModuleBuild.Proofs.Build.FailedBuild
import ModuleBuild.Proofs.FileTree.KeptEdits
import ModuleBuild.Proofs.FileTree.RealAlike
import ModuleBuild.Proofs.FileTree.ByName
import ModuleBuild.Proofs.Output.Confined
import ModuleBuild.Proofs.ModuleText.Literals
import ModuleBuild.Proofs.Output.Reporting
import ModuleBuild.Proofs.Output.PlacedWhole
import ModuleBuild.Proofs.Output.Contained
import ModuleBuild.Proofs.Output.FirstEntry
import ModuleBuild.Proofs.ModuleText.Stripping
import ModuleBuild.Proofs.ModuleText.ImportGrammar
import ModuleBuild.Proofs.CommandLine.JsonOutput
import ModuleBuild.Proofs.Json.Stretches
import ModuleBuild.Proofs.Project.ObjectFile
import ModuleBuild.Proofs.Log.Ledger
