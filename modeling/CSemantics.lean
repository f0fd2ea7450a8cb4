import CSemantics.Lib.IntBits
import CSemantics.Common
import CSemantics.RangeMaps
import CSemantics.Symloc
import CSemantics.Typing.Syntax
import CSemantics.Typing.Equality
import CSemantics.Typing.Common
import CSemantics.Typing.FlatFields
import CSemantics.Typing.ActiveVariant
import CSemantics.Bits
import CSemantics.Memory.Encoding
import CSemantics.Memory.BitField
import CSemantics.Lib.AssocMap
import CSemantics.Translation.Tagged
import CSemantics.Translation.Literal
import CSemantics.Lib.ConjSearch
import CSemantics.Promotion
import CSemantics.Typing.Compatibility
import CSemantics.Conversion
import CSemantics.Typing.Composite
import CSemantics.Lib.StoreBuffer
import CSemantics.Memory.Objects
import CSemantics.Execution.Io
import CSemantics.Execution.ZeroedBits
import CSemantics.Execution.Padding
import CSemantics.Execution.Sequence
import CSemantics.Lib.Summary
import CSemantics.Execution.CheckRestrict
import CSemantics.Memory.Alloc
import CSemantics.Library.Stdlib
import CSemantics.Library.StringSearch
import CSemantics.Library.Io
import CSemantics.Library.Stdio.Output
import CSemantics.Library.Stdio.Input
import CSemantics.Library.Stdio.Scanf
import CSemantics.Library.Stdio.ScanFormat
import CSemantics.Library.Stdio.ScanInteger
import CSemantics.Library.Stdio.Strtod
import CSemantics.Library.Stdio.ScanFloat
import CSemantics.Library.Stdio.Format
import CSemantics.Library.Stdio.Printf
import CSemantics.Lib.QueueMerge
import CSemantics.Linking.Init
import CSemantics.Parser.Lexicon
import CSemantics.Parser.Cabs
import CSemantics.Parser.KPrinter
import CSemantics.Parser.LabelEscape
import CSemantics.Parser.SwitchIds
import CSemantics.Translation.TagScope
import CSemantics.Lib.Machine
import CSemantics.Translation.Initializer
import CSemantics.Lib.Inevitable
import CSemantics.Lib.PathSum
import CSemantics.Statement
import CSemantics.Translation.ProcessLabel
import CSemantics.Execution.Declaration
import CSemantics.Execution.Stmt
import CSemantics.Execution.Place
import CSemantics.Execution.Switch
import CSemantics.Lib.Tournament
import CSemantics.Cpp.BestViable
import CSemantics.Cpp.Typing
import CSemantics.Cpp.TypeKeys
import CSemantics.Cpp.Enumeration
import CSemantics.Cpp.BaseClasses
import CSemantics.Cpp.Overloading
import CSemantics.Cpp.ImplicitConversion
import CSemantics.Cpp.Ranking
import CSemantics.Cpp.RankingOrder
import CSemantics.Cpp.UserDefined
import CSemantics.Cpp.ConversionSequences
import CSemantics.Cpp.DefaultedCopy
import CSemantics.Cpp.OperatorCandidates
import CSemantics.Cpp.MemberLookup
import CSemantics.Lib.Dominance
import CSemantics.Lib.Worklist
import CSemantics.Linking.LinkingDeps
import CSemantics.Linking.Resolution
import CSemantics.Linking.Program
import CSemantics.Translation.Global
import CSemantics.Translation.LinkBase
import CSemantics.Translation.ExternalDecl
import CSemantics.Lib.RunMerge
import CSemantics.Joining
import CSemantics.Lib.Trace
import CSemantics.Library.Threads
import CSemantics.Library.Setjmp
import CSemantics.Library.Stdarg
import CSemantics.Lib.Assembly
import CSemantics.Cpp.Destructors
import CSemantics.Lib.Referral
import CSemantics.Cpp.NamespaceLookup
import CSemantics.Cpp.AssociatedNamespaces
import CSemantics.Alignment
import CSemantics.Expr.Additive
import CSemantics.Lib.Bitwise
import CSemantics.Expr.Bitwise
import CSemantics.Memory.BoolBitField
import CSemantics.Memory.BitLocation
import CSemantics.Memory.PartialBytes
import CSemantics.Lib.MultiLevel
import CSemantics.Lib.LongestPrefix
import CSemantics.Cpp.QualificationConversion
import CSemantics.Cpp.Handlers
import CSemantics.Expr.Relational
import CSemantics.Expr.Arithmetic
import CSemantics.CommonType
import CSemantics.Cpp.Promotion
import CSemantics.Cpp.UsualConversion
import CSemantics.Execution.Labels
import CSemantics.Execution.Continue
import CSemantics.Library.StringCopy
import CSemantics.Library.StringOrder
import CSemantics.Translation.Specifiers
import CSemantics.Parser.StringLiteral
import CSemantics.Parser.GrowArray
import CSemantics.Library.Exit
import CSemantics.Execution.Lifetime
import CSemantics.Translation.Declarator
import CSemantics.Library.Stdio.RoundTrip
import CSemantics.Native.Server
import CSemantics.Expr.ConstantExpr
