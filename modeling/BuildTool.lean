import BuildTool.Main
import BuildTool.Run.Session
import BuildTool.Proofs.Token.Verdict
import BuildTool.Proofs.Compile.FirstError
import BuildTool.Proofs.Token.Rendering
import BuildTool.Proofs.Program.Continuation
import BuildTool.Proofs.Compile.Concatenation
import BuildTool.Proofs.Compile.Source
import BuildTool.Proofs.Invocation.Report
import BuildTool.Proofs.Run.History
import BuildTool.Proofs.Token.Insertion
import BuildTool.Proofs.Compile.Insertion
import BuildTool.Proofs.Program.Extension
import BuildTool.Proofs.Run.Echo
import BuildTool.Proofs.Invocation.Precedence
import BuildTool.Proofs.Program.Dump
import BuildTool.Proofs.Run.Output
import BuildTool.Proofs.Run.Prediction
import BuildTool.Proofs.Run.Trace
import BuildTool.Proofs.Token.Viability
import BuildTool.Proofs.Text.Removal
import BuildTool.Proofs.Token.InPlaceRun
import BuildTool.Proofs.Program.Registers
import BuildTool.Proofs.Yaml.LineDocument
import BuildTool.Proofs.Settings.Reading
