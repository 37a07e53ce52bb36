import TriLang.Syntax.Outline
import TriLang.CommandLine.FileTree
import TriLang.Main
import TriLang.Proofs.Typing.Acceptance
import TriLang.Proofs.Typing.Placement
import TriLang.Proofs.Printing.Formatting
import TriLang.Proofs.Compilation.Halting
import TriLang.Proofs.Parsing.Numbers
import TriLang.Proofs.Compilation.ListingTable
import TriLang.Proofs.Compilation.ListingText
import TriLang.Proofs.Lexing.Classification
import TriLang.Proofs.Lexing.Joining
import TriLang.Proofs.Scoping.Duplicates
import TriLang.Proofs.Typing.SelfReference
import TriLang.Proofs.CommandLine.Outputs
import TriLang.Proofs.Source.Inside
import TriLang.Proofs.Diagnostic.Places
import TriLang.Proofs.Typing.Causes
import TriLang.Proofs.Diagnostic.Excerpts
import TriLang.Proofs.Typing.Renaming
import TriLang.Proofs.Parsing.Counting
import TriLang.Proofs.Scoping.Histories
import TriLang.Proofs.Source.Bounds
import TriLang.Proofs.Diagnostic.Bounds
