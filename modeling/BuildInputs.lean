import BuildInputs.Main
import BuildInputs.Proofs.Path.Rooted
import BuildInputs.Proofs.FileSystem.Arrival
import BuildInputs.Proofs.FileSystem.Real
import BuildInputs.Proofs.BuildFile.Containment
import BuildInputs.Proofs.Json.Fields
import BuildInputs.Proofs.Package.Positions
import BuildInputs.Proofs.Package.Detection
import BuildInputs.Proofs.FileSystem.Listing
import BuildInputs.Proofs.FileSystem.Directories
import BuildInputs.Proofs.FileSystem.Entries
import BuildInputs.Proofs.Path.Pieces
import BuildInputs.Proofs.Path.Pushing
import BuildInputs.Proofs.Path.Absolute
import BuildInputs.Proofs.Path.Course
import BuildInputs.Proofs.Path.Shown
import BuildInputs.Proofs.Secret.Id
import BuildInputs.Proofs.Secret.Findings
import BuildInputs.Proofs.Secret.Resolution
import BuildInputs.Proofs.Secret.Sources
import BuildInputs.Proofs.Secret.Arguments
import BuildInputs.Proofs.Secret.Collisions
import BuildInputs.Proofs.GoProxy.Lines
import BuildInputs.Proofs.GoProxy.Blocks
import BuildInputs.Proofs.Json.Tokens
import BuildInputs.Proofs.Json.Grammar
import BuildInputs.Proofs.Json.Integers
import BuildInputs.Proofs.Json.Letters
import BuildInputs.Proofs.Json.RoundTrip
import BuildInputs.Proofs.Auth.Narrowing
import BuildInputs.Proofs.Auth.Scopes
import BuildInputs.Proofs.Auth.EmptyTokens
import BuildInputs.Proofs.Auth.Tokens
import BuildInputs.Proofs.Image.Ends
import BuildInputs.Proofs.Text.Utf8Decoding
import BuildInputs.Proofs.Text.Lossy
import BuildInputs.Proofs.Text.Base64
import BuildInputs.Proofs.Json.Positions
import BuildInputs.Proofs.Package.Hits
import BuildInputs.Proofs.Json.Sameness
import BuildInputs.Proofs.Package.Changes
import BuildInputs.Proofs.Package.Preparation
import BuildInputs.Proofs.Json.Sorting
import BuildInputs.Proofs.Json.Storing
import BuildInputs.Proofs.Json.Updates
import BuildInputs.Proofs.Package.Storing
import BuildInputs.Proofs.Package.Completion
import BuildInputs.Proofs.Text.Cuts
import BuildInputs.Proofs.Text.Words
import BuildInputs.Proofs.Text.Trimming
import BuildInputs.Proofs.Image.Parts
import BuildInputs.Proofs.Image.NameGrammar
import BuildInputs.Proofs.Image.LabelTags
import BuildInputs.Proofs.CommandLine.Printing
import BuildInputs.Proofs.CommandLine.ImageReference
import BuildInputs.Proofs.Image.ArtifactTag
import BuildInputs.Proofs.CommandLine.PrintedReferences
import BuildInputs.Proofs.Auth.Users
import BuildInputs.Proofs.BuildFile.Precedence
import BuildInputs.Proofs.CommandLine.Passwords
import BuildInputs.Proofs.Json.Nesting
import BuildInputs.Proofs.Package.Nesting
import BuildInputs.Proofs.Glob.Literals
import BuildInputs.Proofs.Glob.Endings
import BuildInputs.Proofs.Package.Certificates
import BuildInputs.Proofs.CommandLine.PrefetchInput
import BuildInputs.Proofs.Package.Combining
import BuildInputs.Proofs.Secret.Spellings
import BuildInputs.Proofs.Package.LastCertificates
import BuildInputs.Proofs.BuildFile.FalseAlarms
import BuildInputs.Proofs.Auth.Documents
import BuildInputs.Proofs.Image.LabelNames
import BuildInputs.Proofs.CommandLine.PrefetchConfig
import BuildInputs.Proofs.Path.Joining
