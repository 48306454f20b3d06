import MonkeyLexis.Command.Interact
import MonkeyLexis.Command.Lex
import MonkeyLexis.Main
import MonkeyLexis.Proofs.BlockInput
import MonkeyLexis.Proofs.CommandsAgree
import MonkeyLexis.Proofs.Concatenation
import MonkeyLexis.Proofs.DisplayReading
import MonkeyLexis.Proofs.EndOfText
import MonkeyLexis.Proofs.FailingSources
import MonkeyLexis.Proofs.FollowedPaths
import MonkeyLexis.Proofs.ForeignCharacters
import MonkeyLexis.Proofs.Greeting
import MonkeyLexis.Proofs.Layout
import MonkeyLexis.Proofs.LineTokens
import MonkeyLexis.Proofs.Lines
import MonkeyLexis.Proofs.ListingLoop
import MonkeyLexis.Proofs.ListingReading
import MonkeyLexis.Proofs.LoneReturns
import MonkeyLexis.Proofs.LongestMatch
import MonkeyLexis.Proofs.LongestRuns
import MonkeyLexis.Proofs.QuotedReading
import MonkeyLexis.Proofs.Records
import MonkeyLexis.Proofs.Restart
import MonkeyLexis.Proofs.SessionCourse
import MonkeyLexis.Proofs.SessionLines
import MonkeyLexis.Proofs.SharedStreams
import MonkeyLexis.Proofs.SourceWords
import MonkeyLexis.Proofs.SourcesAgree
import MonkeyLexis.Proofs.StrictDecoding
import MonkeyLexis.Proofs.StrictListing
import MonkeyLexis.Proofs.TokenPlaces
import MonkeyLexis.Proofs.UnreportedFailures
import MonkeyLexis.Proofs.WrittenLines
import MonkeyLexis.Text.Utf8.RoundTrip
import MonkeyLexis.Token.Printer
