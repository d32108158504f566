import HttpServer.Arena
import HttpServer.Calendar
import HttpServer.Dictionary
import HttpServer.RequestParser
import HttpServer.Networking
import HttpServer.IncrementalDecoder
import HttpServer.NumberParsing
import HttpServer.ChunkDecoding
import HttpServer.ChunkedGrammar
import HttpServer.ChunkedFrames
import HttpServer.Receiving
import HttpServer.ChunkedReading
import HttpServer.BufferedSend
import HttpServer.PlainReading
import HttpServer.Serializing
import HttpServer.Runs
import HttpServer.Turns
import HttpServer.StreamTurns
import HttpServer.StreamedSend
import HttpServer.HeadAcceptance
import HttpServer.ConnectionRuns
import HttpServer.Polling
import HttpServer.Announcements
import HttpServer.Persistence
import HttpServer.Ranges
import HttpServer.RequestGrammar
import HttpServer.RequestLocality
import HttpServer.TransferCodings
import HttpServer.HeadTracking
import HttpServer.Smuggling
import HttpServer.HeadRequests
import HttpServer.ResponseFraming
import HttpServer.StreamedRuns
import HttpServer.ReadingBounds
import HttpServer.SerializedSize
import HttpServer.ConnectionBounds
import HttpServer.ContentFreshness
import HttpServer.BodyExactness
import HttpServer.FinalResponses
import HttpServer.CodingMatrix
import HttpServer.ConnectionLayout
import HttpServer.FramingLines
import HttpServer.ResponseExactness
import HttpServer.RouteCheck
import HttpServer.ServerLoop
import HttpServer.ContentServing
import HttpServer.ContentValidators
import HttpServer.BodyRetention
import HttpServer.SlotAlike
import HttpServer.SlotReuse
import HttpServer.RequestBoundaries
import HttpServer.CheckedMemory
import HttpServer.CheckedParser
import HttpServer.ParserSafety
import HttpServer.LoadingBounds
import HttpServer.CheckedStrings
import HttpServer.RouteMisses
import HttpServer.ArenaBlocks
import HttpServer.LinkedChains
import HttpServer.LinkedDictionary
import HttpServer.DictionaryChains
import HttpServer.LogIndependence
import HttpServer.ServerSessions
import HttpServer.ServerBounds
import HttpServer.SiteConfinement
import HttpServer.CivilCalendar
import HttpServer.HttpDates
import HttpServer.ContentHeaders
import HttpServer.AnswerReading
import HttpServer.ClientCaches
import HttpServer.Ownership
import HttpServer.RegistryHeap
import HttpServer.RegistryOwnership
import HttpServer.RegistryRuns
import HttpServer.DirectoryListing
import HttpServer.StreamedReceiving
import HttpServer.StreamedSources
import HttpServer.FileDownloads
import HttpServer.WireOrder
import HttpServer.StreamCompletion
